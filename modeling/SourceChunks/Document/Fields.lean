import SourceChunks.Json.Value

/-!
# Field names

Every field of a document has two spellings, one with capitals and one with
underscores between its words.  A document may use either; if both are there, the
one with capitals counts.
-/

namespace SourceChunks

/-- The two spellings of a field. -/
structure FieldName where
  /-- With a capital at the beginning of every word but the first. -/
  camel : String
  /-- With underscores between the words. -/
  snake : String
  deriving Repr, DecidableEq

/-- Which spelling is written. -/
inductive Spelling where
  | camel
  | snake
  deriving Repr, DecidableEq

namespace FieldName

/-- A field of one word. -/
def single (word : String) : FieldName := ⟨word, word⟩

/-- The name of a field in a spelling. -/
def spelled (field : FieldName) : Spelling → String
  | .camel => field.camel
  | .snake => field.snake

/-- The member that gives a field its value, with the name it was given under. -/
def find? (field : FieldName) (members : List (String × Json)) : Option (String × Json) :=
  match Json.lookup field.camel members with
  | some value => some (field.camel, value)
  | none => (Json.lookup field.snake members).map fun value => (field.snake, value)

end FieldName

namespace Field

def kind : FieldName := .single "kind"
def name : FieldName := .single "name"
def content : FieldName := .single "content"
def position : FieldName := .single "position"
def startLine : FieldName := ⟨"startLine", "start_line"⟩
def endLine : FieldName := ⟨"endLine", "end_line"⟩
def startColumn : FieldName := ⟨"startColumn", "start_column"⟩
def endColumn : FieldName := ⟨"endColumn", "end_column"⟩
def file : FieldName := .single "file"
def id : FieldName := .single "id"
def contentHash : FieldName := ⟨"contentHash", "content_hash"⟩
def visibility : FieldName := .single "visibility"
def variableType : FieldName := ⟨"variableType", "variable_type"⟩
def parameters : FieldName := .single "parameters"
def returnType : FieldName := ⟨"returnType", "return_type"⟩
def role : FieldName := .single "role"
def path : FieldName := .single "path"
def listener : FieldName := .single "listener"
def httpMethod : FieldName := ⟨"httpMethod", "http_method"⟩
def resourcePath : FieldName := ⟨"resourcePath", "resource_path"⟩
def fullPath : FieldName := ⟨"fullPath", "full_path"⟩
def servicePath : FieldName := ⟨"servicePath", "service_path"⟩
def serviceListener : FieldName := ⟨"serviceListener", "service_listener"⟩
def part : FieldName := .single "part"
def partCount : FieldName := ⟨"partCount", "part_count"⟩
def metadata : FieldName := .single "metadata"
def chunks : FieldName := .single "chunks"
def sourceDirectory : FieldName := ⟨"sourceDirectory", "source_directory"⟩
def generatedAt : FieldName := ⟨"generatedAt", "generated_at"⟩
def totalChunks : FieldName := ⟨"totalChunks", "total_chunks"⟩
def chunkTypeCounts : FieldName := ⟨"chunkTypeCounts", "chunk_type_counts"⟩

end Field

end SourceChunks
