import SourceChunks.Json.Value
import SourceChunks.Number.Numeral
import SourceChunks.Number.Shortest
import SourceChunks.Text.Quoted

/-!
# Values as texts

A value that stands where a text is wanted is shown in a readable form: a string as it
is, and strings within other values between quotes.  A value with a whole number of too
many digits in it is not to be shown.
-/

namespace SourceChunks.Json

mutual

/-- A value within another one. -/
def shownWithin : Json → String
  | .null => "None"
  | .bool value => if value then "True" else "False"
  | .int value => toString value
  | .real value => value.text
  | .str value => Text.quoted value
  | .arr items => "[" ++ ", ".intercalate (shownItems items) ++ "]"
  | .obj members => "\x7b" ++ ", ".intercalate (shownMembers members) ++ "\x7d"

/-- The items of an array. -/
def shownItems : List Json → List String
  | [] => []
  | item :: rest => shownWithin item :: shownItems rest

/-- The members of an object. -/
def shownMembers : List (String × Json) → List String
  | [] => []
  | (name, value) :: rest =>
      (Text.quoted name ++ ": " ++ shownWithin value) :: shownMembers rest

end

/-- A value as a text. -/
def shown : Json → String
  | .str value => value
  | json => shownWithin json

mutual

/-- Whether no whole number in a value has too many digits. -/
def isShort : Json → Bool
  | .int value => value.natAbs < 10 ^ Numeral.digitLimit
  | .arr items => areShort items
  | .obj members => haveShort members
  | _ => true

/-- Whether no whole number in some items has too many digits. -/
def areShort : List Json → Bool
  | [] => true
  | item :: rest => isShort item && areShort rest

/-- Whether no whole number in some members has too many digits. -/
def haveShort : List (String × Json) → Bool
  | [] => true
  | (_, value) :: rest => isShort value && haveShort rest

end

/-- A value as a text; none if it is not to be shown. -/
def shown? (json : Json) : Option String :=
  if json.isShort then some json.shown else none

end SourceChunks.Json
