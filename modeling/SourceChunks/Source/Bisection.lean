/-!
# Bisection

The first items of a list come before a place, and all later ones do not.  Bisection finds
how many do: it looks at the item in the middle of those that are still open, and goes on
with the half that this leaves open.
-/

namespace SourceChunks

variable {α : Type}

/-- How many items come before a place, if the first `low` do and those from `high` on do not.
A round leaves fewer items open, so there are never more rounds than items. -/
def bisectFrom (isBefore : α → Bool) (items : List α) : (rounds low high : Nat) → Nat
  | 0, low, _ => low
  | rounds + 1, low, high =>
      if low < high then
        let middle := (low + high) / 2
        if items[middle]?.any isBefore then bisectFrom isBefore items rounds (middle + 1) high
        else bisectFrom isBefore items rounds low middle
      else low

/-- How many items of a list come before a place. -/
def bisect (isBefore : α → Bool) (items : List α) : Nat :=
  bisectFrom isBefore items items.length 0 items.length

/-- The items that come before a place are the first ones. -/
theorem any_getElem?_iff {isBefore : α → Bool} {items : List α}
    (h : items.Pairwise fun x y => isBefore y = true → isBefore x = true) (i : Nat) :
    items[i]?.any isBefore = true ↔ i < (items.takeWhile isBefore).length := by
  induction items generalizing i with
  | nil => simp
  | cons x items ih =>
      obtain ⟨hx, hitems⟩ := List.pairwise_cons.mp h
      by_cases hbefore : isBefore x = true
      · rw [List.takeWhile_cons_of_pos hbefore, List.length_cons]
        cases i with
        | zero => simpa using hbefore
        | succ i => rw [List.getElem?_cons_succ, ih hitems, Nat.succ_lt_succ_iff]
      · rw [List.takeWhile_cons_of_neg hbefore]
        cases i with
        | zero => simpa using hbefore
        | succ i =>
            rw [List.getElem?_cons_succ, Option.any_eq_true]
            constructor
            · rintro ⟨y, hy, hbefore'⟩
              exact absurd (hx y (List.mem_of_getElem? hy) hbefore') hbefore
            · intro hlt
              exact absurd hlt (Nat.not_lt_zero _)

theorem bisectFrom_eq {isBefore : α → Bool} {items : List α}
    (h : items.Pairwise fun x y => isBefore y = true → isBefore x = true) {rounds low high : Nat}
    (hlow : low ≤ (items.takeWhile isBefore).length)
    (hhigh : (items.takeWhile isBefore).length ≤ high) (hrounds : high - low ≤ rounds) :
    bisectFrom isBefore items rounds low high = (items.takeWhile isBefore).length := by
  -- The number that is looked for stays between the two bounds.
  induction rounds generalizing low high with
  | zero =>
      rw [bisectFrom]
      omega
  | succ rounds ih =>
      rw [bisectFrom]
      by_cases hopen : low < high
      · rw [if_pos hopen]
        have hmiddle := any_getElem?_iff h ((low + high) / 2)
        by_cases hbefore : (low + high) / 2 < (items.takeWhile isBefore).length
        · rw [if_pos (hmiddle.mpr hbefore)]
          exact ih hbefore hhigh (by omega)
        · rw [if_neg (mt hmiddle.mp hbefore)]
          exact ih hlow (Nat.not_lt.mp hbefore) (by omega)
      · rw [if_neg hopen]
        omega

/-- Bisection finds how many items come before a place, if none of them does that stands behind
one that does not. -/
theorem bisect_eq {isBefore : α → Bool} {items : List α}
    (h : items.Pairwise fun x y => isBefore y = true → isBefore x = true) :
    bisect isBefore items = (items.takeWhile isBefore).length :=
  bisectFrom_eq h (Nat.zero_le _) (List.takeWhile_prefix _).length_le (Nat.le_refl _)

end SourceChunks
