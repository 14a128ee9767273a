import SourceChunks.Pattern.Basic

/-!
# Searching a text for a pattern

A search tries a pattern at every place of a region from left to right.  Where
it is found, the search goes on behind the stretch that was found, so the found
stretches never overlap.
-/

namespace SourceChunks

/-- A stretch that a pattern describes, with its marked parts, the latest first. -/
structure Match (L : Type) where
  /-- The whole stretch. -/
  span : Span
  /-- The marked parts, the latest first. -/
  marks : List (L × Span)

namespace Match

variable {L : Type} [DecidableEq L]

/-- The latest part with a label. -/
def part? (m : Match L) (label : L) : Option Span :=
  (m.marks.find? (·.1 = label)).map (·.2)

/-- All parts with a label, in the order of the text. -/
def parts (m : Match L) (label : L) : List Span :=
  (m.marks.filter (·.1 = label)).reverse.map (·.2)

/-- Whether some part has a label. -/
def hasPart (m : Match L) (label : L) : Bool :=
  (m.part? label).isSome

end Match

namespace Pattern

variable {L : Type}

/-- The best match of a pattern that begins at a place. -/
def matchAt (p : Pattern L) (before : Option Char) (offset : Nat) (rest : List Char) :
    Option (Match L) :=
  (p.firstEnd some ⟨before, rest, offset, []⟩).map fun stop => ⟨⟨offset, stop.offset⟩, stop.marks⟩

/-- The matches in a text from a place on, after `skip` more characters. -/
def matchesFrom (p : Pattern L) :
    (skip : Nat) → (before : Option Char) → (offset : Nat) → List Char → List (Match L)
  | _, _, _, [] => []
  | skip + 1, _, offset, c :: rest => matchesFrom p skip (some c) (offset + 1) rest
  | 0, before, offset, c :: rest =>
      match p.matchAt before offset (c :: rest) with
      | some m => m :: matchesFrom p (m.span.stop - offset - 1) (some c) (offset + 1) rest
      | none => matchesFrom p 0 (some c) (offset + 1) rest

/-- The matches that lie in a region of a text.  The character before the region
still counts as the neighbour of its first place; nothing counts behind it. -/
def matchesIn (p : Pattern L) (text : List Char) (region : Span) : List (Match L) :=
  p.matchesFrom 0 (if region.start = 0 then none else text[region.start - 1]?) region.start
    (region.slice text)

/-- The matches in a whole text. -/
def allMatches (p : Pattern L) (text : List Char) : List (Match L) :=
  p.matchesFrom 0 none 0 text

end Pattern

end SourceChunks
