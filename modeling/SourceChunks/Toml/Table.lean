import SourceChunks.Json.Value

/-!
# Tables of a configuration text

A configuration text names its tables in headers and in keys with dots.  A table may be
filled in several places, but it may have only one header, and the dots of keys may
open it only in one block of lines, that is, below one header.  What is written as a
value can never be added to.
-/

namespace SourceChunks.Toml

/-- How a table came to be. -/
inductive Origin where
  /-- Its name stands on the way to another table. -/
  | implied
  /-- It has a header. -/
  | header
  /-- A key with dots opened it in a block of lines. -/
  | dotted (block : Nat)
  deriving Repr, DecidableEq

/-- What a name stands for. -/
inductive Node where
  /-- A value. -/
  | value (value : Json)
  /-- A table with its members. -/
  | table (origin : Origin) (members : List (String × Node))
  /-- A row of tables, of which the last one can still be added to. -/
  | tables (done : List Json) (members : List (String × Node))
  deriving Inhabited

/-- The members of a table. -/
abbrev Members := List (String × Node)

mutual

/-- The value of a node. -/
def Node.json : Node → Json
  | .value v => v
  | .table _ members => .obj (membersJson members)
  | .tables done members => .arr (done ++ [.obj (membersJson members)])

/-- The values of the members of a table. -/
def membersJson : Members → List (String × Json)
  | [] => []
  | (name, node) :: rest => (name, node.json) :: membersJson rest

end

namespace Members

/-- The node with a name. -/
def lookup (name : String) (members : Members) : Option Node :=
  (members.find? (·.1 == name)).map (·.2)

/-- The members with a node put in: it takes the place of a node of the same name, or
goes to the end. -/
def set (name : String) (node : Node) : Members → Members
  | [] => [(name, node)]
  | (n, old) :: rest => if n == name then (n, node) :: rest else (n, old) :: set name node rest

/-- A change of the table that a path leads to; tables on the way that are not there
come to be.  Of a row of tables, the last one is meant. -/
def within (change : Members → Option Members) : List String → Members → Option Members
  | [], members => change members
  | name :: rest, members =>
      match lookup name members with
      | none => (within change rest []).map fun inner => set name (.table .implied inner) members
      | some (.table origin inner) =>
          (within change rest inner).map fun inner => set name (.table origin inner) members
      | some (.tables done inner) =>
          (within change rest inner).map fun inner => set name (.tables done inner) members
      | some (.value _) => none

/-- A table gets its header. -/
def openTable (name : String) (members : Members) : Option Members :=
  match lookup name members with
  | none => some (set name (.table .header []) members)
  | some (.table .implied inner) => some (set name (.table .header inner) members)
  | some _ => none

/-- One more table in a row. -/
def openItem (name : String) (members : Members) : Option Members :=
  match lookup name members with
  | none => some (set name (.tables [] []) members)
  | some (.tables done inner) =>
      some (set name (.tables (done ++ [.obj (membersJson inner)]) []) members)
  | some _ => none

/-- A value for a key with dots in a block of lines. -/
def assign (block : Nat) (value : Json) : List String → Members → Option Members
  | [], _ => none
  | [name], members =>
      match lookup name members with
      | none => some (set name (.value value) members)
      | some _ => none
  | name :: rest, members =>
      let inner? : Option Members :=
        match lookup name members with
        | none => some []
        | some (.table .implied inner) => some inner
        | some (.table (.dotted n) inner) => if n = block then some inner else none
        | some _ => none
      match inner? with
      | none => none
      | some inner =>
          (assign block value rest inner).map fun inner =>
            set name (.table (.dotted block) inner) members

end Members

end SourceChunks.Toml
