import SourceChunks.Document.Encode

/-!
# Index records

What an index stores for a chunk: a key of its own, a text that says what the chunk
is before the chunk's text, and the chunk itself.
-/

namespace SourceChunks

/-- What an index stores for a chunk. -/
structure IndexRecord where
  key : String
  text : String
  payload : Json

namespace Chunk

/-- The number of the part, if it is set and not zero. -/
def partNumber? (c : Chunk) : Option Int :=
  c.part.filter (· != 0)

/-- The key of a chunk: its identifier, and what tells it apart from the other half
and the other parts. -/
def recordKey (c : Chunk) : String :=
  c.id ++ (c.role.map fun r => "#" ++ r.name).getD "" ++
    (c.partNumber?.map fun n => "#part" ++ toString n).getD ""

/-- A line with a label, if there is a text that is not empty. -/
def labelled (label : String) (text : Option String) : List String :=
  match text with
  | some s => if s.isEmpty then [] else [label ++ ": " ++ s]
  | none => []

/-- The text of a chunk behind lines that say what it is. -/
def recordText (c : Chunk) : String :=
  "\n".intercalate
    (["Type: " ++ c.kind.name] ++ labelled "Name" c.name ++ labelled "Service" c.servicePath ++
      labelled "HTTP Method" c.httpMethod ++
      labelled "Returns" (c.returnType.filter (· != "void")) ++
      (c.partNumber?.map fun n =>
        "Part: " ++ toString n ++ "/" ++ (c.partCount.map toString).getD "None").toList ++
      ["Content:\n" ++ c.content])

/-- The record of a chunk. -/
def record (c : Chunk) : IndexRecord :=
  ⟨c.recordKey, c.recordText, c.encode .camel⟩

end Chunk

/-- The records of some chunks. -/
def indexRecords (chunks : List Chunk) : List IndexRecord :=
  chunks.map Chunk.record

end SourceChunks
