import SourceChunks.Number.Binary64

/-!
# JSON values

Whole numbers are kept apart from numbers with a fraction or an exponent, since
only the former are unbounded.  The members of an object stand in order of first
appearance and have distinct names.
-/

namespace SourceChunks

/-- A JSON value. -/
inductive Json where
  /-- The null value. -/
  | null
  /-- A truth value. -/
  | bool (value : Bool)
  /-- A number without fraction and exponent. -/
  | int (value : Int)
  /-- A number with a fraction or an exponent, or one that is not finite. -/
  | real (value : Binary64)
  /-- A string. -/
  | str (value : String)
  /-- An array. -/
  | arr (items : List Json)
  /-- An object. -/
  | obj (members : List (String × Json))
  deriving Repr, Inhabited

namespace Json

/-- The value of the first member with a name. -/
def lookup (name : String) (members : List (String × Json)) : Option Json :=
  (members.find? (·.1 == name)).map (·.2)

/-- The members with one more: a member of the same name gets the new value and
keeps its place, and a new name goes to the end. -/
def setMember (name : String) (value : Json) : List (String × Json) → List (String × Json)
  | [] => [(name, value)]
  | (n, v) :: rest => if n == name then (n, value) :: rest else (n, v) :: setMember name value rest

/-- The value of a member of an object; none for other values. -/
def member? (json : Json) (name : String) : Option Json :=
  match json with
  | obj members => lookup name members
  | _ => none

end Json

end SourceChunks
