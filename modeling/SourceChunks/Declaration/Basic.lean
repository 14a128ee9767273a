import SourceChunks.Declaration.Kind
import SourceChunks.Span
import SourceChunks.Text.Blank

/-!
# Declarations

A declaration covers a span of a source text and has parts: a name, a type,
parameters and so on.  It is first found in the mask of the text, where its parts
are spans, and then read from the text itself, where its parts are words.  Both
are one type, `Declaration`, over the type of the parts.

The parts that carry white space of their own, which are the return type and the
listener, are trimmed when they are read, and are absent if nothing is left.
-/

namespace SourceChunks

/-- The header of a function or resource, and the brace that opens its body. -/
structure Callable (α : Type) where
  /-- The words before the keyword, without the visibility. -/
  qualifiers : List α
  /-- What stands between the parentheses. -/
  parameters : α
  /-- The return type, if there is one. -/
  returns : Option α
  /-- The offset of the brace that opens the body. -/
  opening : Nat
  deriving Repr, DecidableEq

/-- The header of a service, and the brace that opens its body. -/
structure Service (α : Type) where
  /-- The path or the name that it was given. -/
  path : Option α
  /-- The listener that it is attached to. -/
  listener : Option α
  /-- The offset of the brace that opens the body. -/
  opening : Nat
  deriving Repr, DecidableEq

/-- What a declaration says. -/
inductive Shape (α : Type) where
  | importClause
  | configurable (isPublic : Bool) (type name : α)
  | moduleVariable (type name : α)
  | typeDefinition (isPublic : Bool) (name : α)
  | function (isPublic : Bool) (name : α) (callable : Callable α)
  | service (header : Service α)
  | resource (owner : Service α) (method path : α) (callable : Callable α)
  | classDefinition (isPublic : Bool) (name : α)
  | constant (isPublic : Bool) (type : Option α) (name : α)
  deriving Repr, DecidableEq

/-- A declaration: where it stands and what it says. -/
structure Declaration (α : Type) where
  /-- The stretch from its first to its last character. -/
  span : Span
  /-- What it says. -/
  shape : Shape α
  deriving Repr, DecidableEq

/-- The kind of declaration that has a shape. -/
def Shape.kind {α : Type} : Shape α → Kind
  | importClause => .importClause
  | configurable .. => .configurable
  | moduleVariable .. => .moduleVariable
  | typeDefinition .. => .typeDefinition
  | function .. => .function
  | service .. => .service
  | resource .. => .resource
  | classDefinition .. => .classDefinition
  | constant .. => .constant

/-- The brace that opens the body of a declaration that has one of its own. -/
def Shape.opening? {α : Type} : Shape α → Option Nat
  | function _ _ callable => some callable.opening
  | .service header => some header.opening
  | resource _ _ _ callable => some callable.opening
  | _ => none

namespace Declaration

variable {α : Type}

/-- The kind of a declaration. -/
def kind (d : Declaration α) : Kind :=
  d.shape.kind

/-- The offset at which the header of a declaration ends and its body opens. -/
def headerEnd? (d : Declaration α) : Option Nat :=
  d.shape.opening?

/-- What stands between the braces of the body of a declaration. -/
def body? (d : Declaration α) : Option Span :=
  d.headerEnd?.map fun opening => ⟨opening + 1, d.span.stop - 1⟩

end Declaration

/-! ## Reading -/

/-- A part without the white space around it; none if nothing is left. -/
def readTrimmed (text : List Char) (part : Span) : Option String :=
  let trimmed := Text.trim (part.slice text)
  if trimmed.isEmpty then none else some (String.ofList trimmed)

/-- A part as it stands in the text. -/
def readPart (text : List Char) (part : Span) : String :=
  String.ofList (part.slice text)

/-- The parts of a header, read from the text. -/
def Callable.read (text : List Char) (callable : Callable Span) : Callable String where
  qualifiers := callable.qualifiers.map (readPart text)
  parameters := readPart text callable.parameters
  returns := callable.returns.bind (readTrimmed text)
  opening := callable.opening

/-- The parts of the header of a service, read from the text. -/
def Service.read (text : List Char) (service : Service Span) : Service String where
  path := service.path.map (readPart text)
  listener := service.listener.bind (readTrimmed text)
  opening := service.opening

/-- The parts of a shape, read from the text. -/
def Shape.read (text : List Char) : Shape Span → Shape String
  | importClause => .importClause
  | configurable isPublic type name => .configurable isPublic (readPart text type) (readPart text name)
  | moduleVariable type name => .moduleVariable (readPart text type) (readPart text name)
  | typeDefinition isPublic name => .typeDefinition isPublic (readPart text name)
  | function isPublic name callable => .function isPublic (readPart text name) (callable.read text)
  | .service header => .service (header.read text)
  | resource owner method path callable =>
      .resource (owner.read text) (readPart text method) (readPart text path) (callable.read text)
  | classDefinition isPublic name => .classDefinition isPublic (readPart text name)
  | constant isPublic type name =>
      .constant isPublic (type.map (readPart text)) (readPart text name)

/-- A declaration that was found in the mask of a text, read from the text. -/
def Declaration.read (text : List Char) (d : Declaration Span) : Declaration String where
  span := d.span
  shape := d.shape.read text

@[simp] theorem Shape.read_kind (text : List Char) (s : Shape Span) :
    (s.read text).kind = s.kind := by
  cases s <;> rfl

@[simp] theorem Shape.read_opening (text : List Char) (s : Shape Span) :
    (s.read text).opening? = s.opening? := by
  cases s <;> rfl

@[simp] theorem Declaration.read_kind (text : List Char) (d : Declaration Span) :
    (d.read text).kind = d.kind :=
  Shape.read_kind text d.shape

@[simp] theorem Declaration.read_headerEnd (text : List Char) (d : Declaration Span) :
    (d.read text).headerEnd? = d.headerEnd? :=
  Shape.read_opening text d.shape

end SourceChunks
