import SourceChunks.Declaration.Basic
import SourceChunks.Source.Bracket
import SourceChunks.Text.Word

/-!
# The parts of a function behind its name

Behind the parameters of a function there may be a return type, and then there is
the brace that opens the body.  A return type may hold blocks of its own, the
bodies of `record` and `object` types; a brace directly behind one of these words
does not open the body of the function.
-/

namespace SourceChunks

/-- What stands between the parameters and the body of a function. -/
structure CallableTail where
  /-- The span from behind the word `returns` to the body, if there is that word. -/
  returns : Option Span
  /-- The offset of the brace that opens the body. -/
  opening : Nat
  deriving Repr, DecidableEq

/-- Whether the text that was read, the latest character first, ends with a word
before which no other word character stands. -/
def endsWithWord (word : List Char) (read : List Char) : Bool :=
  word.reverse.isPrefixOf read && !((read.drop word.length).head?.any Text.isWord)

/-- Whether a brace behind the text that was read, the latest character first,
opens the body of an inline type. -/
def endsInlineType (read : List Char) : Bool :=
  let read := Text.trimLeft read
  endsWithWord "record".toList read || endsWithWord "object".toList read

/-- The offset of the brace behind a return type; none if a semicolon, an equals
sign or the end of the text comes first.  `read` is the type so far, the latest
character first, and `depth` counts the open blocks of inline types. -/
def returnTypeEndFrom : (read : List Char) → (depth offset : Nat) → List Char → Option Nat
  | _, _, _, [] => none
  | read, depth + 1, offset, c :: rest =>
      returnTypeEndFrom (c :: read)
        (if c = '{' then depth + 2 else if c = '}' then depth else depth + 1) (offset + 1) rest
  | read, 0, offset, c :: rest =>
      if c = '{' then
        if endsInlineType read then returnTypeEndFrom (c :: read) 1 (offset + 1) rest
        else some offset
      else if c = ';' || c = '=' then none
      else returnTypeEndFrom (c :: read) 0 (offset + 1) rest

/-- What is left behind the word `returns`, if the text begins with it. -/
def behindReturns? (s : List Char) : Option (List Char) :=
  let word := "returns".toList
  if word.isPrefixOf s && !((s.drop word.length).head?.any Text.isWord) then
    some (s.drop word.length)
  else none

/-- The return type and the opening brace behind a parameter list that ends at an
offset; none if there is no body. -/
def callableTail? (offset : Nat) (rest : List Char) : Option CallableTail :=
  let after := Text.trimLeft rest
  let place := offset + (rest.length - after.length)
  match behindReturns? after with
  | some type =>
      let start := place + "returns".length
      (returnTypeEndFrom [] 0 start type).map fun opening => ⟨some ⟨start, opening⟩, opening⟩
  | none => if after.head? = some '{' then some ⟨none, place⟩ else none

/-- Why a header does not belong to a function with a body. -/
inductive CallableFailure where
  /-- The parameter list is never closed. -/
  | openParameters
  /-- No body follows. -/
  | noBody
  /-- The body is never closed. -/
  | openBody
  deriving Repr, DecidableEq

/-- The parts of a function from its opening parenthesis on. -/
structure CallableParts where
  /-- What stands between the parentheses. -/
  parameters : Span
  /-- The return type and the opening brace. -/
  tail : CallableTail
  /-- The offset past the closing brace of the body. -/
  stop : Nat
  deriving Repr, DecidableEq

/-- The parts of a function whose parameters begin at an offset, directly behind
the opening parenthesis. -/
def callableParts (mask : List Char) (start : Nat) : Except CallableFailure CallableParts :=
  match Bracket.closingFrom '(' ')' 0 start (mask.drop start) with
  | none => .error .openParameters
  | some behind =>
      match callableTail? behind (mask.drop behind) with
      | none => .error .noBody
      | some tail =>
          match Bracket.blockEndFrom (tail.opening + 1) (mask.drop (tail.opening + 1)) with
          | none => .error .openBody
          | some stop => .ok ⟨⟨start, behind - 1⟩, tail, stop⟩

end SourceChunks
