import SourceChunks.Chunk.Basic
import SourceChunks.Document.Timestamp

/-!
# Documents

A document holds a list of chunks and a summary: where they come from, when they
were made, how many there are, and how many of each kind.
-/

namespace SourceChunks

/-- What a document says about its chunks as a whole. -/
structure Summary where
  /-- The directory or files that were chunked. -/
  sourceDirectory : Option String
  /-- When the document was made. -/
  generatedAt : Timestamp
  /-- The number of chunks. -/
  totalChunks : Int
  /-- The number of chunks of each kind that occurs. -/
  chunkTypeCounts : List (String × Int)
  deriving Repr, DecidableEq

/-- A summary and the chunks it is about. -/
structure Document where
  summary : Summary
  chunks : List Chunk
  deriving Repr, DecidableEq

/-- One more of a kind: a known kind keeps its place, and a new one goes to the end. -/
def countOne (name : String) : List (String × Nat) → List (String × Nat)
  | [] => [(name, 1)]
  | (other, n) :: rest =>
      if other = name then (other, n + 1) :: rest else (other, n) :: countOne name rest

/-- The number of chunks of each kind, in the order of their first chunks. -/
def kindCounts (chunks : List Chunk) : List (String × Nat) :=
  chunks.foldl (fun counts chunk => countOne chunk.kind.name counts) []

/-- The summary of some chunks. -/
def Summary.ofChunks (now : Timestamp) (sourceDirectory : Option String) (chunks : List Chunk) :
    Summary where
  sourceDirectory := sourceDirectory
  generatedAt := now
  totalChunks := chunks.length
  chunkTypeCounts := (kindCounts chunks).map fun (name, n) => (name, (n : Int))

/-- The document of some chunks. -/
def Document.ofChunks (now : Timestamp) (sourceDirectory : Option String) (chunks : List Chunk) :
    Document :=
  ⟨.ofChunks now sourceDirectory chunks, chunks⟩

end SourceChunks
