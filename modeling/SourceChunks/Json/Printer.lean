import SourceChunks.Json.Value
import SourceChunks.Number.Shortest
import SourceChunks.Text.Hex

/-!
# Printing JSON

A value is printed on one line, or with a line for every item and member, indented
by two spaces for each level.  Strings escape the quote, the backslash and the
control characters below the space, and nothing else.
-/

namespace SourceChunks.Json

/-- Where a printed value breaks its lines. -/
inductive Layout where
  /-- Nowhere. -/
  | line
  /-- Before every item and member, and before the bracket that closes them. -/
  | indented
  deriving Repr, DecidableEq

/-- What stands before an item or a closing bracket at a depth. -/
def Layout.break (layout : Layout) (depth : Nat) : List Char :=
  match layout with
  | line => []
  | indented => '\n' :: List.replicate (2 * depth) ' '

/-- What stands between two items. -/
def Layout.comma (layout : Layout) : List Char :=
  match layout with
  | line => [',', ' ']
  | indented => [',']

/-- One character of a string. -/
def escapeChar (c : Char) : List Char :=
  if c = '"' then ['\\', '"']
  else if c = '\\' then ['\\', '\\']
  else if c = '\n' then ['\\', 'n']
  else if c = '\r' then ['\\', 'r']
  else if c = '\t' then ['\\', 't']
  else if c.toNat = 8 then ['\\', 'b']
  else if c.toNat = 12 then ['\\', 'f']
  else if c.toNat < 32 then '\\' :: 'u' :: Text.hexDigits 4 c.toNat
  else [c]

/-- A string in quotes, before a text. -/
def writeString (s : String) (rest : List Char) : List Char :=
  '"' :: s.toList.foldr (fun c rest => escapeChar c ++ rest) ('"' :: rest)

/-- The text of a number with a fraction. -/
def realText (x : Binary64) : String :=
  match x with
  | .nan => "NaN"
  | .infinite negative => if negative then "-Infinity" else "Infinity"
  | x => x.text

mutual

/-- A value at a depth, before a text. -/
def write (layout : Layout) (depth : Nat) : Json → List Char → List Char
  | null, rest => "null".toList ++ rest
  | bool value, rest => (if value then "true".toList else "false".toList) ++ rest
  | int value, rest => (toString value).toList ++ rest
  | real value, rest => (realText value).toList ++ rest
  | str value, rest => writeString value rest
  | arr [], rest => '[' :: ']' :: rest
  | arr (item :: items), rest =>
      '[' :: layout.break (depth + 1) ++
        write layout (depth + 1) item (writeItems layout (depth + 1) items
          (layout.break depth ++ ']' :: rest))
  | obj [], rest => '{' :: '}' :: rest
  | obj ((name, value) :: members), rest =>
      '{' :: layout.break (depth + 1) ++
        writeString name (':' :: ' ' ::
          write layout (depth + 1) value (writeMembers layout (depth + 1) members
            (layout.break depth ++ '}' :: rest)))

/-- The items after the first one, each behind a comma. -/
def writeItems (layout : Layout) (depth : Nat) : List Json → List Char → List Char
  | [], rest => rest
  | item :: items, rest =>
      layout.comma ++ layout.break depth ++
        write layout depth item (writeItems layout depth items rest)

/-- The members after the first one, each behind a comma. -/
def writeMembers (layout : Layout) (depth : Nat) : List (String × Json) → List Char → List Char
  | [], rest => rest
  | (name, value) :: members, rest =>
      layout.comma ++ layout.break depth ++
        writeString name (':' :: ' ' ::
          write layout depth value (writeMembers layout depth members rest))

end

/-- The printed form of a value. -/
def print (layout : Layout) (json : Json) : String :=
  String.ofList (write layout 0 json [])

end SourceChunks.Json
