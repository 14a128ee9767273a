import SourceChunks.Document.Decode
import SourceChunks.Document.Encode
import SourceChunks.Document.FileName
import SourceChunks.Files.Tree

/-!
# Documents in files

A document is written to a file that is named for its sources and the time.  Of
several documents that are loaded together, one that holds no document is reported
and does not keep the others from being loaded; a path that no file can have, a file
whose bytes are no text, and a text that goes beyond the limits of the reader, end the
whole load.
-/

namespace SourceChunks

/-- Why no document could be loaded from a file. -/
inductive LoadFailure where
  /-- The file cannot be read. -/
  | unreadable (failure : AccessFailure)
  /-- The bytes of the file are no text. -/
  | undecodable
  /-- The text of the file holds no document. -/
  | noDocument (failure : DocumentFailure)
  deriving Repr, DecidableEq

/-- Whether a failure ends the load of several documents. -/
def LoadFailure.endsBatch : LoadFailure → Bool
  | unreadable failure => failure.fault = .nullCharacter
  | undecodable => true
  | noDocument (.malformed fault) => fault.isLimit
  | noDocument (.invalid _) => false

/-- The wording of a failure; bytes that are no text have none. -/
def LoadFailure.message : LoadFailure → String
  | unreadable failure =>
      match failure.fault with
      | .nullCharacter => failure.message
      | _ => "Cannot read " ++ failure.path.text ++ ": " ++ failure.message
  | undecodable => ""
  | noDocument failure => failure.message

/-- What came of loading several documents: the documents and the failures, each in the
order in which their paths were met first. -/
structure Batch where
  loaded : List (Path × Document) := []
  failed : List (Path × LoadFailure) := []
  deriving Repr, DecidableEq

/-- The document in the file at a path. -/
def loadDocument (now : Timestamp) (tree : Entry) (path : Path) : Except LoadFailure Document :=
  match tree.read path with
  | .error failure => .error (.unreadable failure)
  | .ok bytes =>
      match Encoding.utf8.readText? bytes with
      | none => .error .undecodable
      | some text => (Document.parse now text).mapError .noDocument

/-- The documents in the files at some paths, each of which counts once. -/
def loadBatchOf (now : Timestamp) (tree : Entry) : List Path → Except LoadFailure Batch
  | [] => .ok {}
  | path :: rest =>
      match loadDocument now tree path with
      | .ok document =>
          (loadBatchOf now tree rest).map fun batch =>
            { batch with loaded := (path, document) :: batch.loaded }
      | .error failure =>
          if failure.endsBatch then .error failure
          else
            (loadBatchOf now tree rest).map fun batch =>
              { batch with failed := (path, failure) :: batch.failed }

/-- The documents in the files at some paths, of which a repeated one counts once. -/
def loadBatch (now : Timestamp) (tree : Entry) (paths : List Path) : Except LoadFailure Batch :=
  loadBatchOf now tree paths.eraseDups

/-- The tree with a document in the file at a path, in a directory that is made if it is
not there. -/
def writeDocument (tree : Entry) (path : Path) (document : Document) :
    Except AccessFailure Entry := do
  let tree ← tree.makeDirectories path.parent
  tree.write path document.text.toUTF8

/-- Where a document about some sources is saved in a directory. -/
def documentPath (now : Timestamp) (directory : Path) (sources : String) : Path :=
  directory.child (documentFileName sources now)

end SourceChunks
