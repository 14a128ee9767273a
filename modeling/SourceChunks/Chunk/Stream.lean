import SourceChunks.Chunk.Bound
import SourceChunks.Chunk.Build
import SourceChunks.Declaration.Locate
import SourceChunks.Source.Mask

/-!
# The chunks of source files

The chunks of a text are listed by the kind of their declarations, and in the order
of the text within a kind, except that every service is followed by its resources.
The chunks of several files follow one another in the order of the files.
-/

namespace SourceChunks

/-- A file to be chunked. -/
structure SourceFile where
  /-- The name under which its chunks are known. -/
  path : String
  /-- Its text. -/
  text : String
  deriving Repr, DecidableEq

/-- The declarations of a text in the order in which they are listed. -/
def declarationsOf (text : List Char) : List (Declaration String) :=
  (declarations (Locate.all (mask text))).map (·.read text)

/-- The chunks of a text, before their size is bounded. -/
def wholeChunks (file text : String) : List Chunk :=
  let chars := text.toList
  (declarationsOf chars).flatMap (chunksOf file chars (LineIndex.ofText chars))

/-- The chunks of a text. -/
def chunkText (limit : Limit) (file text : String) : List Chunk :=
  (wholeChunks file text).flatMap (bound limit)

/-- How files are chunked: the greatest length of a chunk's text, and how many files
are worked on at a time. -/
structure Chunker where
  limit : Limit := .standard
  workers : Nat := 1
  deriving Repr, DecidableEq

namespace Chunker

/-- A chunker with a given limit and number of workers, of which there is at least
one. -/
def ofInts (maxChunkLength workers : Int) : Except NotPositive Chunker :=
  (Limit.ofInt "max_chunk_length" maxChunkLength).map fun limit => ⟨limit, max 1 workers.toNat⟩

/-- The chunks of one file. -/
def chunkFile (chunker : Chunker) (source : SourceFile) : List Chunk :=
  chunkText chunker.limit source.path source.text

/-- The chunks of several files, in the order of the files; the number of workers
has no influence on it. -/
def chunkFiles (chunker : Chunker) (files : List SourceFile) : List Chunk :=
  files.flatMap chunker.chunkFile

end Chunker

end SourceChunks
