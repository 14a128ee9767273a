/-!
# Name patterns

A pattern for names: a star stands for any characters, a question mark for one, and
brackets for one character of a set.  A set lists characters and ranges and may be
negated by an exclamation mark in front.  A bracket that is not closed stands for
itself, and so does a hyphen with nothing on one of its sides.
-/

namespace SourceChunks.Glob

/-- One part of a pattern. -/
inductive Item where
  /-- Any characters. -/
  | star
  /-- Any one character. -/
  | one
  /-- A character. -/
  | char (c : Char)
  /-- A character in one of the ranges, or in none of them. -/
  | set (negated : Bool) (ranges : List (Char × Char))
  deriving Repr, DecidableEq

/-! ## Sets -/

/-- The length of what stands in a set, given the text behind its opening bracket; none
if the set is not closed.  A closing bracket in front, or behind the exclamation mark
in front, is one of the characters. -/
def setLength? (s : List Char) : Option Nat :=
  let lead := if s.head? = some '!' then 1 else 0
  let lead := if (s.drop lead).head? = some ']' then lead + 1 else lead
  let more := ((s.drop lead).takeWhile (· != ']')).length
  if lead + more < s.length then some (lead + more) else none

/-- The stretches of a set between the hyphens of its ranges, where `piece` holds the
current one, the latest character first, and a hyphen belongs to a range once the
piece before it has `least` characters.  A last hyphen belongs to none. -/
def piecesFrom (least : Nat) (piece : List Char) : List Char → List (List Char)
  | [] => [piece.reverse]
  | c :: rest =>
      if c = '-' && least ≤ piece.length && !rest.isEmpty then
        piece.reverse :: piecesFrom 2 [] rest
      else piecesFrom least (c :: piece) rest

/-- The stretches of a set between the hyphens of its ranges. -/
def pieces (s : List Char) : List (List Char) :=
  piecesFrom (if s.head? = some '!' then 2 else 1) [] s

/-- The pieces without the ranges whose first character lies behind their last one. -/
def dropEmptyRanges : List (List Char) → List (List Char)
  | [] => []
  | piece :: rest =>
      match dropEmptyRanges rest with
      | [] => [piece]
      | next :: more =>
          match piece.getLast?, next.head? with
          | some low, some high =>
              if high < low then (piece.dropLast ++ next.drop 1) :: more
              else piece :: next :: more
          | _, _ => piece :: next :: more

/-- The ranges between neighbouring pieces; a hyphen with nothing before it stands for
itself. -/
def rangesBetween : List (List Char) → List (Char × Char)
  | piece :: next :: rest =>
      (match piece.getLast?, next.head? with
        | some low, some high => (low, high)
        | _, _ => ('-', '-')) :: rangesBetween (next :: rest)
  | _ => []

/-- The characters of pieces and the ranges between them. -/
def rangesOf (pieces : List (List Char)) : List (Char × Char) :=
  pieces.flatten.map (fun c => (c, c)) ++ rangesBetween pieces

/-- The set with the given text between its brackets. -/
def setOf (s : List Char) : Item :=
  match dropEmptyRanges (pieces s) with
  | ('!' :: piece) :: rest => .set true (rangesOf (piece :: rest))
  | pieces => .set false (rangesOf pieces)

/-! ## Patterns -/

/-- The parts of a pattern. -/
def itemsOf : List Char → List Item
  | [] => []
  | '*' :: rest => .star :: itemsOf rest
  | '?' :: rest => .one :: itemsOf rest
  | '[' :: rest =>
      match setLength? rest with
      | some n => setOf (rest.take n) :: itemsOf (rest.drop (n + 1))
      | none => .char '[' :: itemsOf rest
  | c :: rest => .char c :: itemsOf rest
  termination_by s => s.length

/-- Whether a part stands for a character. -/
def Item.accepts (c : Char) : Item → Bool
  | star => true
  | one => true
  | char d => c = d
  | set negated ranges => negated != ranges.any fun (low, high) => low ≤ c && c ≤ high

/-- The ends of a text, from the whole text to the empty one. -/
def endsOf : List Char → List (List Char)
  | [] => [[]]
  | c :: rest => (c :: rest) :: endsOf rest

/-- What may be left of a text behind a part, given what may be left in front of it.
All of these are ends of one text and the longest comes first. -/
def Item.behind (rests : List (List Char)) : Item → List (List Char)
  | star =>
      match rests with
      | [] => []
      | longest :: _ => endsOf longest
  | item => rests.filterMap fun
      | [] => none
      | c :: rest => if item.accepts c then some rest else none

/-- Whether a pattern stands for a whole name. -/
def fits (pattern name : String) : Bool :=
  ((itemsOf pattern.toList).foldl Item.behind [name.toList]).contains []

example : fits "[!a-c]?.*" "dx.txt" = true := by decide +kernel
example : fits "[z-a]*" "m" = false := by decide +kernel
example : fits "a[" "a[" = true := by decide +kernel

end SourceChunks.Glob
