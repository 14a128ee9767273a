import SourceChunks.Text.Quoted

/-!
# Kinds of declarations

The nine kinds in the order in which their chunks are listed, and the names under
which documents know them.
-/

namespace SourceChunks

/-- The kind of a declaration. -/
inductive Kind where
  | importClause
  | configurable
  | moduleVariable
  | typeDefinition
  | function
  | service
  | resource
  | classDefinition
  | constant
  deriving Repr, DecidableEq

namespace Kind

/-- All kinds, in the order of a listing. -/
def all : List Kind :=
  [importClause, configurable, moduleVariable, typeDefinition, function, service, resource,
    classDefinition, constant]

/-- The name of a kind. -/
def name : Kind → String
  | importClause => "Import"
  | configurable => "ConfigurableVariable"
  | moduleVariable => "ModuleVariable"
  | typeDefinition => "TypeDefinition"
  | function => "Function"
  | service => "Service"
  | resource => "Resource"
  | classDefinition => "Class"
  | constant => "Constant"

/-- The kind with a name. -/
def ofName? (s : String) : Option Kind :=
  all.find? (·.name == s)

/-- The wording for a name that no kind has. -/
def unknownMessage (s : String) : String :=
  Text.quoted s ++ " is not a valid ChunkKind"

@[simp] theorem ofName_name (k : Kind) : ofName? k.name = some k := by cases k <;> decide

theorem name_injective {k l : Kind} (h : k.name = l.name) : k = l := by
  have := ofName_name k
  rw [h, ofName_name l] at this
  exact (Option.some.inj this).symm

end Kind

end SourceChunks
