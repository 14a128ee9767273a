import SourceChunks.Text.Quoted

/-!
# Matching brackets

Finding the bracket that closes an open one, and the brace that opens a block
behind an expression.  The searches run over a mask, so brackets in comments and
literals do not count.  Every search gives an offset of the whole text: it is
told the offset at which the text it looks at begins.
-/

namespace SourceChunks.Bracket

/-- The offset past the bracket that closes the innermost of `depth + 1` open
ones; none if the text ends first.  A bracket that opens and closes alike only
opens. -/
def closingFrom (opening closing : Char) : (depth offset : Nat) → List Char → Option Nat
  | _, _, [] => none
  | depth, offset, c :: rest =>
      if c = opening then closingFrom opening closing (depth + 1) (offset + 1) rest
      else if c = closing then
        match depth with
        | 0 => some (offset + 1)
        | depth + 1 => closingFrom opening closing depth (offset + 1) rest
      else closingFrom opening closing depth (offset + 1) rest

/-- The offset past the brace that closes a block whose inside begins here. -/
def blockEndFrom (offset : Nat) (inside : List Char) : Option Nat :=
  closingFrom '{' '}' 0 offset inside

/-- Another character, or none, stands where an opening bracket should be. -/
structure NotOpening where
  /-- The bracket that was expected. -/
  opening : Char
  /-- The offset that was looked at. -/
  offset : Nat
  deriving Repr, DecidableEq

/-- The wording of the failure. -/
def NotOpening.message (e : NotOpening) : String :=
  s!"Expected {Text.quoted e.opening.toString} at offset {e.offset}"

/-- The offset past the bracket that closes the one at an offset, or none if it
is never closed. -/
def closing? (text : List Char) (offset : Nat) (opening closing : Char) :
    Except NotOpening (Option Nat) :=
  match text.drop offset with
  | [] => .error ⟨opening, offset⟩
  | c :: rest =>
      if c = opening then .ok (closingFrom opening closing 0 (offset + 1) rest)
      else .error ⟨opening, offset⟩

/-- The offset past the brace that closes the one at an offset. -/
def blockEnd? (text : List Char) (offset : Nat) : Except NotOpening (Option Nat) :=
  closing? text offset '{' '}'

/-- The offset of the first opening brace outside `depth` parentheses and square
brackets; none if a semicolon outside them, or the end of the text, comes first.
A closing bracket without an opening one is passed over. -/
def blockStartFrom : (depth offset : Nat) → List Char → Option Nat
  | _, _, [] => none
  | depth, offset, c :: rest =>
      if c = '(' || c = '[' then blockStartFrom (depth + 1) (offset + 1) rest
      else if c = ')' || c = ']' then blockStartFrom (depth - 1) (offset + 1) rest
      else if depth = 0 && c = '{' then some offset
      else if depth = 0 && c = ';' then none
      else blockStartFrom depth (offset + 1) rest

/-- The first opening brace at or behind an offset that is outside parentheses
and square brackets. -/
def blockStart? (text : List Char) (offset : Nat) : Option Nat :=
  blockStartFrom 0 offset (text.drop offset)

end SourceChunks.Bracket
