/-!
# Spans

Offsets count the characters of a text from zero.  A span names a stretch of a
text by the offset of its first character and the offset past its last one.
-/

namespace SourceChunks

/-- A stretch of a text. -/
structure Span where
  /-- Offset of the first character. -/
  start : Nat
  /-- Offset past the last character. -/
  stop : Nat
  deriving Repr, DecidableEq

namespace Span

/-- The characters of a text that a span names. -/
def slice (span : Span) (text : List Char) : List Char :=
  (text.drop span.start).take (span.stop - span.start)

/-- The same stretch of a text that has `n` more characters in front. -/
def shift (span : Span) (n : Nat) : Span :=
  ⟨span.start + n, span.stop + n⟩

theorem slice_length (span : Span) (text : List Char) (h : span.stop ≤ text.length) :
    (span.slice text).length = span.stop - span.start := by
  simp [slice]
  omega

@[simp] theorem slice_shift (span : Span) (front text : List Char) :
    (span.shift front.length).slice (front ++ text) = span.slice text := by
  simp only [slice, shift]
  rw [List.drop_append, List.drop_eq_nil_of_le (by omega)]
  simp only [List.nil_append, Nat.add_sub_cancel]
  congr 1
  omega

theorem slice_add {text gap rest : List Char} {start place : Nat} (hle : start ≤ place)
    (h : text.drop place = gap ++ rest) :
    slice ⟨start, place + gap.length⟩ text = slice ⟨start, place⟩ text ++ gap := by
  have hlength : place + gap.length - start = place - start + gap.length := by omega
  rw [slice, slice, hlength, List.take_add, List.drop_drop, Nat.add_sub_cancel' hle, h,
    List.take_left]

theorem slice_of_drop {text inside rest : List Char} {start : Nat}
    (h : text.drop start = inside ++ rest) :
    slice ⟨start, start + inside.length⟩ text = inside := by
  rw [slice, h, Nat.add_sub_cancel_left, List.take_left]

end Span

end SourceChunks
