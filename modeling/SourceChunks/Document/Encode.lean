import SourceChunks.Document.Basic
import SourceChunks.Document.Fields
import SourceChunks.Json.Printer

/-!
# Writing documents

The fields of a chunk are written in a fixed order.  Those that every chunk has are
always there; the others are left out unless they are set.
-/

namespace SourceChunks

/-- A value, or null. -/
def jsonOf {α : Type} (encode : α → Json) : Option α → Json
  | some value => encode value
  | none => .null

/-- The value of a position. -/
def Position.encode (spelling : Spelling) (p : Position) : Json :=
  .obj [(Field.startLine.spelled spelling, .int p.startLine),
    (Field.endLine.spelled spelling, .int p.endLine),
    (Field.startColumn.spelled spelling, .int p.startColumn),
    (Field.endColumn.spelled spelling, .int p.endColumn)]

namespace Chunk

/-- The fields that every chunk has. -/
def coreFields (spelling : Spelling) (c : Chunk) : List (FieldName × Json) :=
  [(Field.kind, .str c.kind.name), (Field.name, jsonOf .str c.name), (Field.content, .str c.content),
    (Field.position, c.position.encode spelling), (Field.file, .str c.file), (Field.id, .str c.id),
    (Field.contentHash, .str c.contentHash)]

/-- The fields that a chunk may have. -/
def extraFields (c : Chunk) : List (FieldName × Option Json) :=
  [(Field.visibility, c.visibility.map .str), (Field.variableType, c.variableType.map .str),
    (Field.parameters, c.parameters.map fun items => .arr (items.map .str)),
    (Field.returnType, c.returnType.map .str), (Field.role, c.role.map fun r => .str r.name),
    (Field.path, c.path.map .str), (Field.listener, c.listener.map .str),
    (Field.httpMethod, c.httpMethod.map .str), (Field.resourcePath, c.resourcePath.map .str),
    (Field.fullPath, c.fullPath.map .str), (Field.servicePath, c.servicePath.map .str),
    (Field.serviceListener, c.serviceListener.map .str), (Field.part, c.part.map .int),
    (Field.partCount, c.partCount.map .int)]

/-- The value of a chunk. -/
def encode (spelling : Spelling) (c : Chunk) : Json :=
  .obj ((c.coreFields spelling).map (fun (field, value) => (field.spelled spelling, value)) ++
    c.extraFields.filterMap fun (field, value) =>
      value.map fun value => (field.spelled spelling, value))

end Chunk

/-- The value of a summary. -/
def Summary.encode (s : Summary) : Json :=
  .obj [(Field.sourceDirectory.camel, jsonOf .str s.sourceDirectory),
    (Field.generatedAt.camel, .str s.generatedAt.text),
    (Field.totalChunks.camel, .int s.totalChunks),
    (Field.chunkTypeCounts.camel, .obj (s.chunkTypeCounts.map fun (name, n) => (name, .int n)))]

namespace Document

/-- The value of a document. -/
def encode (d : Document) : Json :=
  .obj [(Field.metadata.camel, d.summary.encode),
    (Field.chunks.camel, .arr (d.chunks.map (·.encode .camel)))]

/-- The text of a document. -/
def text (d : Document) : String :=
  d.encode.print .indented

end Document

end SourceChunks
