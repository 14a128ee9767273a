import Mathlib
import SourceChunks.Proofs.Source.Lines

/-!
# Points in the order of their offsets

The table of line ends gives the point that is counted from the text before a place.  One
character further on, a place is one column further on or at the beginning of the next line.
So the points of a text come in the order of their offsets, lines first.

* `pointAt_eq_behind`: the point of an offset is counted from the text before it.
* `Point.behind_concat`: the step to the next character.
* `strictMonoOn_key_pointAt`: points are in the order of their offsets.
* `checkOffset_cases`: an offset is accepted in a text and at its end, and nowhere else.
* `point_eq_pointOf`: the table gives what is counted from the text, for every offset.
-/

namespace SourceChunks

namespace Point

/-- What points are ordered by: lines first, and columns within a line. -/
def key (p : Point) : ℕ ×ₗ ℕ :=
  toLex (p.line, p.column)

theorem key_lt_key {p q : Point} :
    p.key < q.key ↔ p.line < q.line ∨ p.line = q.line ∧ p.column < q.column :=
  Prod.Lex.toLex_lt_toLex

/-- Behind one more character, a place is on the same line and one column further on, or it
is the first one of the next line. -/
@[simp] theorem behind_concat (front : List Char) (c : Char) :
    behind (front ++ [c]) =
      if c = '\n' then ⟨(behind front).line + 1, 1⟩
      else ⟨(behind front).line, (behind front).column + 1⟩ := by
  by_cases hc : c = '\n'
  · simp [behind, hc]
  · simp [behind, hc]

theorem key_behind_lt_concat (front : List Char) (c : Char) :
    (behind front).key < (behind (front ++ [c])).key := by
  rw [behind_concat, key_lt_key]
  split_ifs
  · exact .inl (Nat.lt_succ_self _)
  · exact .inr ⟨rfl, Nat.lt_succ_self _⟩

theorem key_behind_lt_append (front : List Char) {more : List Char} (hmore : more ≠ []) :
    (behind front).key < (behind (front ++ more)).key := by
  induction more using List.reverseRecOn with
  | nil => contradiction
  | append_singleton more c ih =>
      rw [← List.append_assoc]
      have hstep := key_behind_lt_concat (front ++ more) c
      by_cases hnil : more = []
      · subst hnil
        simpa using hstep
      · exact (ih hnil).trans hstep

end Point

namespace LineIndex

/-- At the end of a text, all of its line ends are before the place. -/
theorem pointAt_length (text : List Char) :
    (ofText text).pointAt text.length =
      match (newlinesFrom 0 text).getLast? with
      | none => ⟨1, text.length + 1⟩
      | some newline => ⟨text.count '\n' + 1, text.length - newline⟩ := by
  have hall : (newlinesFrom 0 text).takeWhile (· < text.length) = newlinesFrom 0 text := by
    rw [List.takeWhile_eq_self_iff]
    intro n hn
    have hlt := (bounds_of_mem_newlinesFrom hn).2
    simpa using hlt
  rw [pointAt_ofText, hall]
  cases (newlinesFrom 0 text).getLast? with
  | none => rfl
  | some newline => simp only [length_newlinesFrom]

/-- The point at the end of a text is the one that is counted from the whole text. -/
@[simp] theorem pointAt_length_eq_behind (text : List Char) :
    (ofText text).pointAt text.length = Point.behind text := by
  induction text using List.reverseRecOn with
  | nil => rfl
  | append_singleton front c ih =>
      rw [Point.behind_concat, ← ih, pointAt_length, pointAt_length, newlinesFrom_append]
      by_cases hc : c = '\n'
      · -- The last line end is the character itself.
        subst hc
        simp only [newlinesFrom, List.getLast?_append]
        cases hlast : (newlinesFrom 0 front).getLast? with
        | none =>
            have hcount := length_newlinesFrom 0 front
            rw [List.getLast?_eq_none_iff.mp hlast, List.length_nil] at hcount
            simp [← hcount]
        | some newline => simp
      · -- The last line end is further back by one more character.
        simp only [newlinesFrom, if_neg hc, List.append_nil]
        cases hlast : (newlinesFrom 0 front).getLast? with
        | none => simp
        | some newline =>
            have hlt := (bounds_of_mem_newlinesFrom (List.mem_of_getLast? hlast)).2
            simp [List.count_append, hc]
            omega

/-- The point of an offset is the one that is counted from the text before it. -/
theorem pointAt_eq_behind {text : List Char} {offset : Nat} (hoffset : offset ≤ text.length) :
    (ofText text).pointAt offset = Point.behind (text.take offset) := by
  have hlength : (text.take offset).length = offset := List.length_take_of_le hoffset
  have happend := pointAt_append_left (text.drop offset) hlength.ge
  rw [List.take_append_drop] at happend
  rw [happend, ← pointAt_length_eq_behind, hlength]

/-- Points are in the order of their offsets. -/
theorem strictMonoOn_key_pointAt (text : List Char) :
    StrictMonoOn (fun offset => ((ofText text).pointAt offset).key) (Set.Iic text.length) := by
  intro a ha b hb hab
  rw [Set.mem_Iic] at ha hb
  simp only [pointAt_eq_behind ha, pointAt_eq_behind hb]
  -- What is before the later place goes on behind what is before the earlier one.
  have hsplit : text.take b = text.take a ++ (text.drop a).take (b - a) := by
    rw [← List.take_add, Nat.add_sub_cancel' hab.le]
  rw [hsplit]
  apply Point.key_behind_lt_append
  apply List.ne_nil_of_length_pos
  rw [List.length_take, List.length_drop]
  omega

/-- An offset is accepted in a text and at its end, and nowhere else. -/
theorem checkOffset_cases (length : Nat) (offset : Int) :
    (∃ n ≤ length, offset = n ∧ checkOffset length offset = .ok n) ∨
      (offset < 0 ∨ length < offset) ∧ checkOffset length offset = .error ⟨offset, length⟩ := by
  by_cases hout : offset < 0 ∨ (length : Int) < offset
  · right
    exact ⟨hout, by simp [checkOffset, hout]⟩
  · left
    obtain ⟨hpos, hle⟩ := not_or.mp hout
    obtain ⟨n, rfl⟩ := Int.eq_ofNat_of_zero_le (not_lt.mp hpos)
    exact ⟨n, by omega, rfl, by simp [checkOffset, hle]⟩

/-- An offset in a text or at its end is accepted. -/
theorem point_eq_ok (text : List Char) {offset : Nat} (hoffset : offset ≤ text.length) :
    (ofText text).point offset = .ok ((ofText text).pointAt offset) := by
  rcases checkOffset_cases text.length offset with ⟨n, -, heq, hcheck⟩ | ⟨hout, -⟩
  · obtain rfl : offset = n := Int.ofNat.inj heq
    rw [point, ofText, hcheck]
    rfl
  · omega

/-- For every offset, the table of a text gives the point that is counted from the text, or the
same failure, which there is for the offsets before the beginning of the text and behind its end.
The table lists all places of line feeds, in increasing order. -/
theorem point_eq_pointOf (text : List Char) :
    (∀ offset : Int, (ofText text).point offset = pointOf text offset ∧
      ∀ failure, pointOf text offset = .error failure ↔
        (offset < 0 ∨ text.length < offset) ∧ failure = ⟨offset, text.length⟩) ∧
      (ofText text).newlines.Pairwise (· < ·) ∧
      ∀ n, n ∈ (ofText text).newlines ↔ text[n]? = some '\n' := by
  refine ⟨fun offset => ?_, pairwise_newlinesFrom 0 text, fun n => ?_⟩
  · rcases checkOffset_cases text.length offset with ⟨n, hle, rfl, hcheck⟩ | ⟨hout, hcheck⟩
    · have hpoint := pointAt_eq_behind hle
      have hin : ¬ ((n : Int) < 0 ∨ (text.length : Int) < n) := by omega
      rw [point_eq_ok text hle, pointOf, hcheck, hpoint]
      exact ⟨rfl, fun failure => ⟨nofun, fun h => absurd h.1 hin⟩⟩
    · have hlength : (ofText text).length = text.length := rfl
      rw [point, hlength, pointOf, hcheck]
      refine ⟨rfl, fun failure => ⟨fun h => ⟨hout, (Except.error.inj h).symm⟩, ?_⟩⟩
      rintro ⟨-, rfl⟩
      rfl
  · rw [ofText, mem_newlinesFrom]
    simp

end LineIndex

end SourceChunks
