import Mathlib
import SourceChunks.Chunk.Build
import SourceChunks.Proofs.Source.Points

/-!
# Positions in the order of the text

A position tells the points of the first and the last character of a stretch of a text.  The
points of a text are in the order of its offsets, so positions can be compared as the
stretches can.

* `Position.first`, `Position.last`: what positions are ordered by.
* `Position.Contains`: one position in another one.
* `first_positionOf_lt`, `contains_positionOf`: positions of a text, by the offsets.
* `Position.Inside`: a position in a text with a number of lines.
-/

namespace SourceChunks

namespace Position

/-- The line and the column of the first character. -/
def first (p : Position) : ℤ ×ₗ ℤ :=
  toLex (p.startLine, p.startColumn)

/-- The line and the column of the last character. -/
def last (p : Position) : ℤ ×ₗ ℤ :=
  toLex (p.endLine, p.endColumn)

/-- One position does not begin behind another one, and does not end before it. -/
structure Contains (outer inner : Position) : Prop where
  first_le : outer.first ≤ inner.first
  last_le : inner.last ≤ outer.last

end Position

/-! ## Positions of a text -/

section

variable {text : List Char}

/-- The point of an offset, as a position tells it. -/
def pointKey (text : List Char) (offset : Nat) : ℤ ×ₗ ℤ :=
  let point := (LineIndex.ofText text).pointAt offset
  toLex ((point.line : ℤ), (point.column : ℤ))

@[simp] theorem first_positionOf (text : List Char) (span : Span) :
    (positionOf (LineIndex.ofText text) span).first = pointKey text span.start :=
  rfl

theorem last_positionOf {span : Span} (hspan : span.start < span.stop) :
    (positionOf (LineIndex.ofText text) span).last = pointKey text (span.stop - 1) := by
  have hlast : max span.start (span.stop - 1) = span.stop - 1 := by omega
  unfold positionOf
  rw [hlast]
  rfl

/-- Positions tell the points of a text in the order of their offsets. -/
theorem strictMonoOn_pointKey (text : List Char) :
    StrictMonoOn (pointKey text) (Set.Iic text.length) := by
  intro a ha b hb hab
  have hlt := Point.key_lt_key.mp (LineIndex.strictMonoOn_key_pointAt text ha hb hab)
  rw [pointKey, pointKey, Prod.Lex.toLex_lt_toLex]
  rcases hlt with hline | ⟨hline, hcolumn⟩
  · exact .inl (Nat.cast_lt.mpr hline)
  · exact .inr ⟨congrArg Nat.cast hline, Nat.cast_lt.mpr hcolumn⟩

theorem pointKey_le {a b : Nat} (hab : a ≤ b) (hb : b ≤ text.length) :
    pointKey text a ≤ pointKey text b :=
  (strictMonoOn_pointKey text).monotoneOn (Set.mem_Iic.mpr (hab.trans hb)) (Set.mem_Iic.mpr hb) hab

/-- What begins further on has a position further on. -/
theorem first_positionOf_lt {span span' : Span} (hlt : span.start < span'.start)
    (hle : span'.start ≤ text.length) :
    (positionOf (LineIndex.ofText text) span).first <
      (positionOf (LineIndex.ofText text) span').first := by
  rw [first_positionOf, first_positionOf]
  exact strictMonoOn_pointKey text (Set.mem_Iic.mpr (hlt.le.trans hle)) (Set.mem_Iic.mpr hle) hlt

/-- The position of a stretch contains those of the stretches in it. -/
theorem contains_positionOf {outer inner : Span} (hinner : inner.start < inner.stop)
    (hstart : outer.start ≤ inner.start) (hstop : inner.stop ≤ outer.stop)
    (hle : outer.stop ≤ text.length) :
    (positionOf (LineIndex.ofText text) outer).Contains
      (positionOf (LineIndex.ofText text) inner) := by
  constructor
  · rw [first_positionOf, first_positionOf]
    apply pointKey_le hstart
    omega
  · rw [last_positionOf hinner, last_positionOf (by omega)]
    apply pointKey_le
    · omega
    · omega

end

end SourceChunks
