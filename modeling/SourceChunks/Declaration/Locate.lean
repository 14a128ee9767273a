import SourceChunks.Declaration.Callable
import SourceChunks.Declaration.Patterns
import SourceChunks.Source.BlockMap

/-!
# Finding declarations in a mask

For each kind of declaration, the declarations that a mask holds, in the order of
the text.  The search sees nothing but the mask, so comments and the interiors of
literals have no influence on it.

Declarations count only outside all blocks, except that a function may be a member
of a class, and a resource must stand directly in the body of its service.  A
header whose block is never closed, and a function without a body, is skipped; so
is a function that is a member of a service.
-/

namespace SourceChunks

/-- Why something that looks like a declaration is skipped. -/
inductive Skip where
  /-- A bracket of it is never closed; the bracket is told for functions. -/
  | unmatched (kind : Kind) (bracket : Option Char) (offset : Nat)
  /-- A function or resource has no body. -/
  | withoutBody (kind : Kind) (offset : Nat)
  /-- A function belongs to a service. -/
  | serviceMember (name : Span) (offset : Nat)
  /-- A service has no body. -/
  | serviceWithoutBody (offset : Nat)
  deriving Repr, DecidableEq

/-- What becomes of something that looks like a declaration. -/
inductive Outcome where
  | declared (declaration : Declaration Span)
  | skipped (skip : Skip)
  deriving Repr, DecidableEq

namespace Outcome

/-- The declaration, if it is one. -/
def declaration? : Outcome → Option (Declaration Span)
  | declared d => some d
  | skipped _ => none

/-- The reason to skip it, if there is one. -/
def skip? : Outcome → Option Skip
  | declared _ => none
  | skipped s => some s

end Outcome

/-- The declarations among some outcomes. -/
def declarations (outcomes : List Outcome) : List (Declaration Span) :=
  outcomes.filterMap Outcome.declaration?

namespace Locate

/-- The span of a part; the empty span at the origin if the part is not there. -/
def part (m : Match Part) (label : Part) : Span :=
  (m.part? label).getD ⟨0, 0⟩

/-- The matches of a pattern that begin outside all blocks of a mask. -/
def topLevelMatches (pattern : Pattern Part) (mask : List Char) : List (Match Part) :=
  let blocks := BlockMap.ofMask mask
  (pattern.allMatches mask).filter fun m => blocks.isTopLevel m.span.start

/-! ## Declarations that end with a semicolon -/

/-- The imports of a mask. -/
def imports (mask : List Char) : List Outcome :=
  (topLevelMatches Patterns.importClause mask).map fun m => .declared ⟨m.span, .importClause⟩

/-- The configurable variables of a mask. -/
def configurables (mask : List Char) : List Outcome :=
  (topLevelMatches Patterns.configurable mask).map fun m =>
    .declared ⟨m.span, .configurable (m.hasPart .visibility) (part m .type) (part m .name)⟩

/-- The words that begin a statement but are no type. -/
def reservedTypeWords : List String :=
  ["annotation", "check", "class", "client", "configurable", "const", "distinct", "else", "enum",
    "final", "foreach", "function", "if", "import", "isolated", "listener", "lock", "match",
    "panic", "public", "readonly", "remote", "resource", "return", "service", "transaction",
    "transactional", "type", "while", "worker", "xmlns"]

/-- The module variables of a mask. -/
def moduleVariables (mask : List Char) : List Outcome :=
  let blocks := BlockMap.ofMask mask
  (Patterns.moduleVariable.allMatches mask).filterMap fun m =>
    let statement := part m .statement
    let type := part m .type
    if reservedTypeWords.contains (String.ofList (type.slice mask)) then none
    else if !blocks.isTopLevel statement.start then none
    else some (.declared ⟨statement, .moduleVariable type (part m .name)⟩)

/-- The constants of a mask. -/
def constants (mask : List Char) : List Outcome :=
  (topLevelMatches Patterns.constant mask).map fun m =>
    .declared ⟨m.span, .constant (m.hasPart .visibility) (m.part? .type) (part m .name)⟩

/-! ## Declarations that end with a semicolon or a block -/

/-- The offset past a semicolon with only white space before it; the given offset
if there is none. -/
def behindSemicolon (offset : Nat) (rest : List Char) : Nat :=
  let after := Text.trimLeft rest
  if after.head? = some ';' then offset + (rest.length - after.length) + 1 else offset

/-- The offset past the end of a declaration: past its semicolon, or past its first
block and a semicolon behind that. -/
def statementEndFrom : (offset : Nat) → List Char → Option Nat
  | _, [] => none
  | offset, c :: rest =>
      if c = ';' then some (offset + 1)
      else if c = '{' then
        (Bracket.blockEndFrom (offset + 1) rest).map fun stop =>
          behindSemicolon stop (rest.drop (stop - (offset + 1)))
      else statementEndFrom (offset + 1) rest

/-- The declarations with a given header that end with a semicolon or a block. -/
def blockStatements (pattern : Pattern Part) (kind : Kind) (shape : Match Part → Shape Span)
    (mask : List Char) : List Outcome :=
  (topLevelMatches pattern mask).map fun m =>
    match statementEndFrom m.span.stop (mask.drop m.span.stop) with
    | none => .skipped (.unmatched kind none m.span.start)
    | some stop => .declared ⟨⟨m.span.start, stop⟩, shape m⟩

/-- The type definitions of a mask. -/
def typeDefinitions (mask : List Char) : List Outcome :=
  blockStatements Patterns.typeDefinition .typeDefinition
    (fun m => .typeDefinition (m.hasPart .visibility) (part m .name)) mask

/-- The classes of a mask. -/
def classes (mask : List Char) : List Outcome :=
  blockStatements Patterns.classDefinition .classDefinition
    (fun m => .classDefinition (m.hasPart .visibility) (part m .name)) mask

/-! ## Services and what is in them -/

/-- The brace that opens the body of a service whose header was matched.  Behind a
listener it is looked for outside parentheses and square brackets. -/
def serviceOpening? (mask : List Char) (m : Match Part) : Option Nat :=
  let rest := mask.drop m.span.stop
  if m.hasPart .listener then Bracket.blockStartFrom 0 m.span.stop rest
  else
    let after := Text.trimLeft rest
    if after.head? = some '{' then some (m.span.stop + (rest.length - after.length)) else none

/-- What becomes of the header of a service. -/
def serviceOutcome (mask : List Char) (m : Match Part) : Outcome :=
  match serviceOpening? mask m with
  | none => .skipped (.serviceWithoutBody m.span.start)
  | some opening =>
      match Bracket.blockEndFrom (opening + 1) (mask.drop (opening + 1)) with
      | none => .skipped (.unmatched .service none m.span.start)
      | some stop =>
          .declared ⟨⟨m.span.start, stop⟩, .service
            { path := (m.part? .path).or (m.part? .identifier)
              listener := if m.hasPart .listener then some ⟨m.span.stop, opening⟩ else none
              opening := opening }⟩

/-- The services of a mask. -/
def services (mask : List Char) : List Outcome :=
  (topLevelMatches Patterns.service mask).map (serviceOutcome mask)

/-- The reason to skip a function or resource that begins at an offset. -/
def CallableFailure.skip (kind : Kind) (offset : Nat) : CallableFailure → Skip
  | .openParameters => .unmatched kind (some '(') offset
  | .noBody => .withoutBody kind offset
  | .openBody => .unmatched kind (some '{') offset

/-- The header of a function or resource, from its match and the parts behind it. -/
def callable (m : Match Part) (parts : CallableParts) : Callable Span where
  qualifiers := m.parts .qualifier
  parameters := parts.parameters
  returns := parts.tail.returns
  opening := parts.tail.opening

/-- The resources of a service of a mask. -/
def resources (mask : List Char) (service : Service Span) (body : Span) : List Outcome :=
  let scope := BlockMap.ofRegion mask body
  (Patterns.resource.matchesIn mask body).filterMap fun m =>
    if !scope.isTopLevel m.span.start then none
    else
      match callableParts mask m.span.stop with
      | .error e => some (.skipped (CallableFailure.skip .resource m.span.start e))
      | .ok parts =>
          if parts.stop > body.stop then none
          else
            some (.declared ⟨⟨m.span.start, parts.stop⟩,
              .resource service (part m .method) (part m .path) (callable m parts)⟩)

/-- The resources that belong to an outcome of the search for services. -/
def resourcesOf (mask : List Char) : Outcome → List Outcome
  | .declared ⟨span, .service service⟩ =>
      resources mask service ⟨service.opening + 1, span.stop - 1⟩
  | _ => []

/-- The services of a mask, each before its resources. -/
def servicesWithResources (mask : List Char) : List Outcome :=
  (services mask).flatMap fun outcome => outcome :: resourcesOf mask outcome

/-! ## Functions -/

/-- The blocks of the services of a mask. -/
def serviceBlocks (mask : List Char) : List Span :=
  (declarations (services mask)).filterMap fun d =>
    d.headerEnd?.map fun opening => ⟨opening, d.span.stop⟩

/-- What becomes of the header of a function. -/
def functionOutcome (mask : List Char) (m : Match Part) : Outcome :=
  match callableParts mask m.span.stop with
  | .error e => .skipped (CallableFailure.skip .function m.span.start e)
  | .ok parts =>
      .declared ⟨⟨m.span.start, parts.stop⟩,
        .function (m.hasPart .visibility) (part m .name) (callable m parts)⟩

/-- The functions of a mask that belong to no service. -/
def functions (mask : List Char) : List Outcome :=
  let blocks := BlockMap.ofMask mask
  let services := serviceBlocks mask
  (Patterns.function.allMatches mask).map fun m =>
    if (blocks.enclosing? m.span.start).any services.contains then
      .skipped (.serviceMember (part m .name) m.span.start)
    else functionOutcome mask m

/-! ## All of them -/

/-- All declarations of a mask, kind after kind in the order of a listing. -/
def all (mask : List Char) : List Outcome :=
  imports mask ++ configurables mask ++ moduleVariables mask ++ typeDefinitions mask ++
    functions mask ++ servicesWithResources mask ++ classes mask ++ constants mask

/-- Everything that a search for one kind of declaration meets.  A search for
functions or resources also meets what is skipped among the services, which it has
to find first. -/
def ofKind (mask : List Char) : Kind → List Outcome
  | .importClause => imports mask
  | .configurable => configurables mask
  | .moduleVariable => moduleVariables mask
  | .typeDefinition => typeDefinitions mask
  | .function => (services mask).filter (·.skip?.isSome) ++ functions mask
  | .service => services mask
  | .resource => (services mask).flatMap fun outcome =>
      if outcome.skip?.isSome then [outcome] else resourcesOf mask outcome
  | .classDefinition => classes mask
  | .constant => constants mask

end Locate

end SourceChunks
