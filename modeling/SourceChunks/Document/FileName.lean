import SourceChunks.Document.Timestamp
import SourceChunks.Files.Path

/-!
# Names of document files

The file of a document is named for the directory that was chunked and the time.
-/

namespace SourceChunks

/-- The last name of a directory, fit for a file name: everything but ASCII letters
and digits becomes an underscore. -/
def sourceLabel (sourceDirectory : String) : String :=
  let name := (Path.ofText sourceDirectory).name.toList
  if name.isEmpty then "sources"
  else String.ofList (name.map fun c => if c.isAlphanum then c else '_')

/-- The name of the file of a document. -/
def documentFileName (sourceDirectory : String) (time : Timestamp) : String :=
  "chunks_" ++ sourceLabel sourceDirectory ++ "_" ++ time.fileText ++ ".json"

end SourceChunks
