import Mathlib
import SourceChunks.Proofs.Pattern.Ends

/-!
# Searching a later part of a text

A pattern looks at offsets only to tell where its parts are, and at the character before a
place only to see a word or a line end there.  So a search behind a line end finds the
same as a search from the beginning of a text, with all offsets shifted.

* `Cursor.shift`: the same place behind some characters that end with a line end.
* `ends_shift`: the ends of a pattern are shifted with the place where it begins.
* `matchesFrom_shift`: so are the matches that a search finds.
* `matchesIn_shift`: so are the matches in a region of a text.
-/

namespace SourceChunks

variable {L : Type}

/-- The same place behind `n` more characters, of which the last one ends a line. -/
def Cursor.shift (n : Nat) (c : Cursor L) : Cursor L where
  before := some (c.before.getD '\n')
  rest := c.rest
  offset := c.offset + n
  marks := c.marks.map fun (label, span) => (label, span.shift n)

/-- The same match behind `n` more characters. -/
def Match.shift (n : Nat) (m : Match L) : Match L where
  span := m.span.shift n
  marks := m.marks.map fun (label, span) => (label, span.shift n)

namespace Match

variable [DecidableEq L]

@[simp] theorem part_shift (n : Nat) (m : Match L) (label : L) :
    (m.shift n).part? label = (m.part? label).map (·.shift n) := by
  rw [part?, part?, shift, List.find?_map, Option.map_map, Option.map_map]
  rfl

@[simp] theorem parts_shift (n : Nat) (m : Match L) (label : L) :
    (m.shift n).parts label = (m.parts label).map (·.shift n) := by
  rw [parts, parts, shift, List.filter_map, ← List.map_reverse, List.map_map, List.map_map]
  rfl

@[simp] theorem hasPart_shift (n : Nat) (m : Match L) (label : L) :
    (m.shift n).hasPart label = m.hasPart label := by
  rw [hasPart, hasPart, part_shift, Option.isSome_map]

end Match

namespace Cursor

@[simp] theorem shift_withMark (n : Nat) (c : Cursor L) (label : L) (start : Nat) :
    (c.shift n).withMark label (start + n) = (c.withMark label start).shift n := rfl

@[simp] theorem atEdge_shift (n : Nat) (c : Cursor L) : (c.shift n).atEdge = c.atEdge := by
  obtain ⟨before, rest, offset, marks⟩ := c
  cases before with
  | none => rfl
  | some x => rfl

@[simp] theorem atLineStart_shift (n : Nat) (c : Cursor L) :
    (c.shift n).atLineStart = c.atLineStart := by
  obtain ⟨before, rest, offset, marks⟩ := c
  cases before with
  | none => rfl
  | some x => rfl

@[simp] theorem shift_advance (n : Nat) (c : Cursor L) (x : Char) (rest : List Char) :
    (c.shift n).advance x rest = (c.advance x rest).shift n := by
  rw [advance, advance, shift, shift, Cursor.mk.injEq]
  exact ⟨rfl, rfl, Nat.add_right_comm c.offset n 1, rfl⟩

end Cursor

namespace Pattern

theorem roundEnds_shift {n : Nat} {step : Cursor L → List (Cursor L)}
    (hstep : ∀ c, step (c.shift n) = (step c).map (·.shift n)) (fuel : Nat) (c : Cursor L) :
    roundEnds step fuel (c.shift n) = (roundEnds step fuel c).map (·.shift n) := by
  induction fuel generalizing c with
  | zero => rfl
  | succ fuel ih =>
      rw [roundEnds, roundEnds, hstep, List.flatMap_map, List.map_append, List.map_flatMap]
      simp only [ih]
      rfl

theorem ends_run_shift (n : Nat) (accepts : Char → Bool) {rest : List Char} {c : Cursor L}
    (hrest : c.rest = rest) :
    ends (run accepts) (c.shift n) = (ends (run accepts) c).map (·.shift n) := by
  induction rest generalizing c with
  | nil =>
      have hshift : (c.shift n).rest = [] := hrest
      rw [ends_run_nil accepts hshift, ends_run_nil accepts hrest]
      rfl
  | cons x rest ih =>
      have hshift : (c.shift n).rest = x :: rest := hrest
      rw [ends_run_cons accepts hshift, ends_run_cons accepts hrest, Cursor.shift_advance,
        ih (show (c.advance x rest).rest = rest from rfl)]
      split_ifs
      · rw [List.map_append]
        rfl
      · rfl

/-- The ends of a pattern are shifted with the place where it begins. -/
@[simp] theorem ends_shift (n : Nat) (p : Pattern L) (c : Cursor L) :
    ends p (c.shift n) = (ends p c).map (·.shift n) := by
  -- By the structure of the pattern: only marks and tests look at the place itself.
  induction p generalizing c with
  | empty => rfl
  | one accepts =>
      cases hrest : c.rest with
      | nil =>
          have hshift : (c.shift n).rest = [] := hrest
          simp [ends, hrest, hshift]
      | cons x rest =>
          have hshift : (c.shift n).rest = x :: rest := hrest
          rw [ends_one_cons accepts hshift, ends_one_cons accepts hrest, Cursor.shift_advance]
          split_ifs
          · rfl
          · rfl
  | run accepts => exact ends_run_shift n accepts rfl
  | seq p q ihp ihq =>
      rw [ends, ends, ihp, List.flatMap_map, List.map_flatMap]
      simp only [ihq]
  | either p q ihp ihq => rw [ends, ends, ihp, ihq, List.map_append]
  | many p ih => exact roundEnds_shift ih _ c
  | mark label p ih =>
      rw [ends, ends, ih, List.map_map, List.map_map]
      exact List.map_congr_left fun d _ => Cursor.shift_withMark n d label c.offset
  | edge =>
      rw [ends, ends, Cursor.atEdge_shift]
      split_ifs
      · rfl
      · rfl
  | lineStart =>
      rw [ends, ends, Cursor.atLineStart_shift]
      split_ifs
      · rfl
      · rfl
  | ahead p ih =>
      rw [ends, ends, ih, List.isEmpty_map]
      split_ifs
      · rfl
      · rfl
  | notAhead p ih =>
      rw [ends, ends, ih, List.isEmpty_map]
      split_ifs
      · rfl
      · rfl

theorem matchAt_shift (n : Nat) (p : Pattern L) (before : Option Char) (offset : Nat)
    (rest : List Char) :
    p.matchAt (some (before.getD '\n')) (offset + n) rest =
      (p.matchAt before offset rest).map (·.shift n) := by
  rw [matchAt_eq, matchAt_eq]
  have hends := ends_shift n p ⟨before, rest, offset, []⟩
  rw [show (Cursor.shift n ⟨before, rest, offset, []⟩ : Cursor L) =
    ⟨some (before.getD '\n'), rest, offset + n, []⟩ from rfl] at hends
  rw [hends, List.head?_map, Option.map_map, Option.map_map]
  rfl

/-- A search behind a line end finds the same as a search at the beginning of a text. -/
theorem matchesFrom_shift (n : Nat) (p : Pattern L) (skip : Nat) (before : Option Char)
    (offset : Nat) (rest : List Char) :
    p.matchesFrom skip (some (before.getD '\n')) (offset + n) rest =
      (p.matchesFrom skip before offset rest).map (·.shift n) := by
  induction rest generalizing skip before offset with
  | nil => cases skip <;> rfl
  | cons c rest ih =>
      -- Behind its first character, both searches see the same character before a place.
      have hnext : ∀ skip, p.matchesFrom skip (some c) (offset + n + 1) rest =
          (p.matchesFrom skip (some c) (offset + 1) rest).map (·.shift n) := by
        intro skip
        rw [Nat.add_right_comm]
        exact ih skip (some c) (offset + 1)
      cases skip with
      | succ skip => exact hnext skip
      | zero =>
          rw [matchesFrom, matchesFrom, matchAt_shift]
          cases p.matchAt before offset (c :: rest) with
          | none => exact hnext 0
          | some m =>
              have hskip : (m.shift n).span.stop - (offset + n) - 1 = m.span.stop - offset - 1 := by
                show m.span.stop + n - (offset + n) - 1 = _
                omega
              show m.shift n :: p.matchesFrom ((m.shift n).span.stop - (offset + n) - 1) _ _ _ = _
              rw [hskip, hnext]
              rfl

/-- The matches in a region of a text, behind some more characters. -/
theorem matchesIn_shift (p : Pattern L) (front text : List Char) {region : Span}
    (hstart : region.start ≠ 0) (hregion : region.start ≤ text.length) :
    p.matchesIn (front ++ text) (region.shift front.length) =
      (p.matchesIn text region).map (·.shift front.length) := by
  have hlt : region.start - 1 < text.length := by omega
  have hbefore : (front ++ text)[(region.shift front.length).start - 1]? =
      some text[region.start - 1] := by
    have hindex : (region.shift front.length).start - 1 = front.length + (region.start - 1) := by
      show region.start + front.length - 1 = _
      omega
    rw [hindex, List.getElem?_append_right (by omega), Nat.add_sub_cancel_left,
      List.getElem?_eq_getElem hlt]
  have hne : (region.shift front.length).start ≠ 0 := by
    show region.start + front.length ≠ 0
    omega
  rw [matchesIn, matchesIn, if_neg hne, if_neg hstart, Span.slice_shift, hbefore,
    List.getElem?_eq_getElem hlt]
  exact matchesFrom_shift front.length p 0 (some text[region.start - 1]) region.start _

end Pattern

end SourceChunks
