import SourceChunks.Chunk.Basic
import SourceChunks.Chunk.Identity
import SourceChunks.Declaration.Names
import SourceChunks.Declaration.Signature
import SourceChunks.Source.Position

/-!
# The chunks of a declaration

A function or resource has a chunk for its signature, written on one line, and one
for the text between its braces.  A service has a chunk for its header on one line.
Every other declaration has one chunk with its text as it stands.
-/

namespace SourceChunks

/-- What a function without a return type returns. -/
def noReturnType : String := "void"

/-- The points of the first and the last character of a span. -/
def positionOf (index : LineIndex) (span : Span) : Position :=
  let first := index.pointAt span.start
  let last := index.pointAt (max span.start (span.stop - 1))
  ⟨first.line, last.line, first.column, last.column⟩

/-- A chunk with a given text and nothing that depends on the kind. -/
def bareChunk (file : String) (index : LineIndex) (d : Declaration String) (content : String) :
    Chunk :=
  let position := positionOf index d.span
  { kind := d.kind
    name := d.name?
    content := content
    position := position
    file := file
    id := chunkId file d.kind d.name? position.startLine
    contentHash := contentHash content }

/-- The signature and the body of a function or resource, where `known` adds to a
chunk what is known of both. -/
def callableChunks (bare : String → Chunk) (signature : String) (body : List Char)
    (callable : Callable String) (known : Chunk → Chunk) : List Chunk :=
  let half (role : Role) (content : String) : Chunk :=
    known { bare content with
      role := some role
      parameters := some (splitParameters callable.parameters)
      returnType := some ((callable.returns.map collapsed).getD noReturnType) }
  [half .signature signature, half .body (String.ofList (Text.trim body))]

/-- The chunks of a declaration of a text. -/
def chunksOf (file : String) (text : List Char) (index : LineIndex) (d : Declaration String) :
    List Chunk :=
  let bare := bareChunk file index d
  let whole := bare (readPart text d.span)
  let body := (d.body?.map (·.slice text)).getD []
  match d.shape with
  | .importClause => [whole]
  | .configurable isPublic type _ =>
      [{ whole with visibility := some (visibilityWord isPublic), variableType := some type }]
  | .moduleVariable type _ => [{ whole with variableType := some type }]
  | .typeDefinition isPublic _ => [{ whole with visibility := some (visibilityWord isPublic) }]
  | .function isPublic name callable =>
      let signature := functionSignature isPublic callable.qualifiers name
        (splitParameters callable.parameters) callable.returns
      callableChunks bare signature body callable fun chunk =>
        { chunk with visibility := some (visibilityWord isPublic) }
  | .service header =>
      let content := collapsed (readPart text ⟨d.span.start, header.opening⟩)
      [{ bare content with path := some header.route, listener := header.listener }]
  | .resource owner method path callable =>
      let signature := resourceSignature callable.qualifiers method path
        (splitParameters callable.parameters) callable.returns
      callableChunks bare signature body callable fun chunk =>
        { chunk with
          httpMethod := some method
          resourcePath := some path
          fullPath := some (SourceChunks.fullPath owner.route path)
          servicePath := some owner.name
          serviceListener := owner.listener }
  | .classDefinition isPublic _ => [{ whole with visibility := some (visibilityWord isPublic) }]
  | .constant isPublic type _ =>
      [{ whole with visibility := some (visibilityWord isPublic), variableType := type }]

end SourceChunks
