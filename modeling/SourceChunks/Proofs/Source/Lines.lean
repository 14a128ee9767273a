import Mathlib
import SourceChunks.Source.Position

/-!
# Lines and columns in two texts

A place in a text has the same line and column whatever follows the text.  Behind a text
that ends a line, a place has the same column, and its line is further on by the number of
lines of that text.

* `newlinesFrom_append`, `newlinesFrom_shift`: the line ends of two texts.
* `mem_newlinesFrom`, `pairwise_newlinesFrom`: the line ends of a text, in increasing order.
* `pointAt_ofText`: the point of an offset, from the line ends before it.
* `pointAt_append_left`, `pointAt_append_right`: the points in either of two texts.
-/

namespace SourceChunks

@[simp] theorem newlinesFrom_append (offset : Nat) (text more : List Char) :
    newlinesFrom offset (text ++ more) =
      newlinesFrom offset text ++ newlinesFrom (offset + text.length) more := by
  induction text generalizing offset with
  | nil => rfl
  | cons c text ih =>
      have hnext : offset + 1 + text.length = offset + (c :: text).length := by
        rw [List.length_cons]
        omega
      rw [List.cons_append, newlinesFrom, newlinesFrom, ih, hnext]
      split_ifs
      · rfl
      · rfl

theorem newlinesFrom_shift (n offset : Nat) (text : List Char) :
    newlinesFrom (offset + n) text = (newlinesFrom offset text).map (· + n) := by
  induction text generalizing offset with
  | nil => rfl
  | cons c text ih =>
      rw [newlinesFrom, newlinesFrom, Nat.add_right_comm, ih]
      split_ifs
      · rfl
      · rfl

theorem bounds_of_mem_newlinesFrom {offset n : Nat} {text : List Char}
    (h : n ∈ newlinesFrom offset text) : offset ≤ n ∧ n < offset + text.length := by
  induction text generalizing offset with
  | nil => contradiction
  | cons c text ih =>
      rw [newlinesFrom] at h
      rw [List.length_cons]
      split_ifs at h with hc
      · rcases List.mem_cons.mp h with rfl | hrest
        · exact ⟨le_refl _, by omega⟩
        · obtain ⟨hle, hlt⟩ := ih hrest
          exact ⟨by omega, by omega⟩
      · obtain ⟨hle, hlt⟩ := ih h
        exact ⟨by omega, by omega⟩

/-- The line ends of a text are the places where a line feed stands. -/
@[simp] theorem mem_newlinesFrom {offset n : Nat} {text : List Char} :
    n ∈ newlinesFrom offset text ↔ offset ≤ n ∧ text[n - offset]? = some '\n' := by
  induction text generalizing offset with
  | nil => simp [newlinesFrom]
  | cons c text ih =>
      rw [newlinesFrom]
      by_cases hfirst : n = offset
      · subst hfirst
        have hnone : n ∉ newlinesFrom (n + 1) text := by
          rw [ih]
          omega
        by_cases hc : c = '\n'
        · simp [hc]
        · simp [hc, hnone]
      · -- Any other place is one of the rest, which begins one further on.
        have hrest : n ∈ newlinesFrom (offset + 1) text ↔
            offset ≤ n ∧ (c :: text)[n - offset]? = some '\n' := by
          rw [ih]
          by_cases hle : offset + 1 ≤ n
          · rw [show n - offset = n - (offset + 1) + 1 by omega, List.getElem?_cons_succ]
            simp [hle, Nat.le_of_succ_le hle]
          · simp [hle, show ¬ offset ≤ n by omega]
        split_ifs
        · rw [List.mem_cons, or_iff_right hfirst, hrest]
        · exact hrest

/-- The line ends of a text are in increasing order. -/
theorem pairwise_newlinesFrom (offset : Nat) (text : List Char) :
    (newlinesFrom offset text).Pairwise (· < ·) := by
  induction text generalizing offset with
  | nil => exact .nil
  | cons c text ih =>
      rw [newlinesFrom]
      split_ifs
      · exact List.pairwise_cons.mpr ⟨fun n hn => (bounds_of_mem_newlinesFrom hn).1, ih _⟩
      · exact ih _

@[simp] theorem length_newlinesFrom (offset : Nat) (text : List Char) :
    (newlinesFrom offset text).length = text.count '\n' := by
  induction text generalizing offset with
  | nil => rfl
  | cons c text ih =>
      rw [newlinesFrom]
      by_cases hc : c = '\n'
      · rw [if_pos hc, List.length_cons, ih, hc, List.count_cons_self]
      · rw [if_neg hc, ih, List.count_cons_of_ne hc]

/-- The last character of a text that ends a line is its last line end. -/
theorem getLast_newlinesFrom {text : List Char} (h : text.getLast? = some '\n') :
    (newlinesFrom 0 text).getLast? = some (text.length - 1) := by
  obtain ⟨front, rfl⟩ := List.getLast?_eq_some_iff.mp h
  rw [newlinesFrom_append, List.getLast?_append, List.length_append]
  simp [newlinesFrom]

namespace LineIndex

/-- The point of an offset, from the line ends before it. -/
theorem pointAt_ofText (text : List Char) (offset : Nat) :
    (ofText text).pointAt offset =
      match ((newlinesFrom 0 text).takeWhile (· < offset)).getLast? with
      | none => ⟨1, offset + 1⟩
      | some newline =>
          ⟨((newlinesFrom 0 text).takeWhile (· < offset)).length + 1, offset - newline⟩ := by
  have hsorted : (newlinesFrom 0 text).Pairwise
      fun m n => decide (n < offset) = true → decide (m < offset) = true := by
    refine (pairwise_newlinesFrom 0 text).imp fun {m n} hlt hn => ?_
    exact decide_eq_true (hlt.trans (of_decide_eq_true hn))
  rw [pointAt, ofText, bisect_eq hsorted]
  obtain ⟨behind, hbehind⟩ := List.takeWhile_prefix (l := newlinesFrom 0 text) (· < offset)
  cases hbefore : (newlinesFrom 0 text).takeWhile (· < offset) using List.reverseRecOn with
  | nil => rfl
  | append_singleton before newline =>
      -- The last one before the offset stands where the others end.
      rw [hbefore] at hbehind
      rw [List.getLast?_concat, List.length_append, ← hbehind]
      simp

theorem takeWhile_append_of_neg {test : Nat → Bool} {xs ys : List Nat}
    (h : ∀ y ∈ ys, test y = false) : (xs ++ ys).takeWhile test = xs.takeWhile test := by
  have hnil : ys.takeWhile test = [] := by
    cases ys with
    | nil => rfl
    | cons y ys => rw [List.takeWhile_cons, h y List.mem_cons_self]; rfl
  rw [List.takeWhile_append, hnil, List.append_nil]
  split_ifs with hall
  · exact ((List.takeWhile_prefix test).eq_of_length hall).symm
  · rfl

/-- What follows a text does not matter to a place in it or at its end. -/
theorem pointAt_append_left {text : List Char} (more : List Char) {offset : Nat}
    (hoffset : offset ≤ text.length) :
    (ofText (text ++ more)).pointAt offset = (ofText text).pointAt offset := by
  have hbehind : ∀ n ∈ newlinesFrom (0 + text.length) more, decide (n < offset) = false := by
    intro n hn
    have hle := (bounds_of_mem_newlinesFrom hn).1
    exact decide_eq_false (by omega)
  have hbefore : (newlinesFrom 0 text ++ newlinesFrom (0 + text.length) more).takeWhile
      (· < offset) = (newlinesFrom 0 text).takeWhile (· < offset) :=
    takeWhile_append_of_neg hbehind
  rw [pointAt_ofText, pointAt_ofText, newlinesFrom_append, hbefore]

/-- Behind a text that ends a line, only the line of a place changes. -/
theorem pointAt_append_right {text : List Char} (hline : text.getLast? = some '\n')
    (more : List Char) (offset : Nat) :
    (ofText (text ++ more)).pointAt (offset + text.length) =
      ⟨((ofText more).pointAt offset).line + text.count '\n',
        ((ofText more).pointAt offset).column⟩ := by
  -- All line ends of the first text come before the place.
  have hall : ∀ n ∈ newlinesFrom 0 text, decide (n < offset + text.length) = true := by
    intro n hn
    have hlt := (bounds_of_mem_newlinesFrom hn).2
    exact decide_eq_true (by omega)
  have hpos : 0 < text.length := by
    obtain ⟨front, rfl⟩ := List.getLast?_eq_some_iff.mp hline
    simp
  have hmap : ((newlinesFrom 0 more).map (· + text.length)).takeWhile
      (· < offset + text.length) =
        ((newlinesFrom 0 more).takeWhile (· < offset)).map (· + text.length) := by
    rw [List.takeWhile_map]
    simp only [Function.comp_def, Nat.add_lt_add_iff_right]
  rw [pointAt_ofText, pointAt_ofText, newlinesFrom_append, newlinesFrom_shift,
    List.takeWhile_append_of_pos hall, hmap, List.getLast?_append, getLast_newlinesFrom hline,
    List.getLast?_map]
  -- The last line end before the place is one of the second text, or the last of the first.
  cases hlast : ((newlinesFrom 0 more).takeWhile (· < offset)).getLast? with
  | none =>
      have hnil : (newlinesFrom 0 more).takeWhile (· < offset) = [] :=
        List.getLast?_eq_none_iff.mp hlast
      simp only [Option.map_none, Option.none_or, hnil, List.map_nil, List.append_nil,
        length_newlinesFrom, Point.mk.injEq]
      omega
  | some newline =>
      simp only [Option.map_some, Option.some_or, List.length_append, List.length_map,
        length_newlinesFrom, Point.mk.injEq]
      omega

end LineIndex

end SourceChunks
