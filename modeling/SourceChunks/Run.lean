import SourceChunks.Chunk.Dedupe
import SourceChunks.Document.Store
import SourceChunks.Files.Discovery

/-!
# Runs

A run loads the source files at some paths, chunks them, drops the chunks whose text is
known, and saves the others in a document.  Whether it succeeds or not, a run leaves
behind the stages that it reached, the files that it chunked, the hashes that it met
and the tree with what it wrote.
-/

namespace SourceChunks

/-- The points that a run passes. -/
inductive Stage where
  | loadStarted
  | loadCompleted
  | chunkStarted
  | chunkCompleted
  | saveStarted
  | saveCompleted
  deriving Repr, DecidableEq

/-- The name of a stage. -/
def Stage.name : Stage → String
  | loadStarted => "load_started"
  | loadCompleted => "load_completed"
  | chunkStarted => "chunk_started"
  | chunkCompleted => "chunk_completed"
  | saveStarted => "save_started"
  | saveCompleted => "save_completed"

/-- Which files are chunked, and how. -/
structure Workflow where
  selection : Selection
  chunker : Chunker
  deriving Repr, DecidableEq

/-- What a run is asked to do. -/
structure RunOptions where
  /-- Whether chunks with a known text are dropped. -/
  dedupe : Bool := true
  /-- Where the document is saved, if it is to be saved. -/
  outputDirectory : Option Path := none
  deriving Repr, DecidableEq

/-- Why a run fails. -/
inductive RunFailure where
  /-- The source files cannot be searched for. -/
  | undiscovered (failure : DiscoveryFailure)
  /-- The document cannot be written. -/
  | unsaved (failure : AccessFailure)
  deriving Repr, DecidableEq

/-- The wording of a failure. -/
def RunFailure.message : RunFailure → String
  | undiscovered failure => failure.message
  | unsaved failure => failure.message

/-- What a run gives. -/
structure RunResult where
  /-- The names of the files that were loaded. -/
  files : List String
  /-- The chunks that were kept. -/
  chunks : List Chunk
  /-- The chunks that were dropped. -/
  duplicates : List Chunk
  /-- Where the document was saved. -/
  output : Option Path
  deriving Repr, DecidableEq

/-- A run that is over. -/
structure Run where
  /-- The stages that it reached. -/
  stages : List Stage
  /-- The names of the files that it chunked. -/
  chunked : List String
  /-- What it gave, or why it failed. -/
  outcome : Except RunFailure RunResult
  /-- The hashes that are known afterwards. -/
  seen : Seen
  /-- The tree afterwards. -/
  tree : Entry

/-- What a document says about where its chunks come from. -/
def sourcesText (paths : List Path) : String :=
  ",".intercalate (paths.map Path.text)

namespace Workflow

/-- The kept chunks, the dropped ones, and the hashes that are known afterwards. -/
def siftIf (dedupe : Bool) (seen : Seen) (chunks : List Chunk) : Sifted :=
  if dedupe then sift seen chunks else ⟨chunks, [], seen⟩

/-- A run on the source files at some paths, where some hashes are known. -/
def run (w : Workflow) (now : Timestamp) (tree : Entry) (seen : Seen) (options : RunOptions)
    (paths : List Path) : Run :=
  match w.selection.load tree paths with
  | .error failure => ⟨[.loadStarted], [], .error (.undiscovered failure), seen, tree⟩
  | .ok sources =>
      let names := sources.map (·.path)
      let sifted := siftIf options.dedupe seen (w.chunker.chunkFiles sources)
      let result : RunResult := ⟨names, sifted.kept, sifted.dropped, none⟩
      let stages : List Stage := [.loadStarted, .loadCompleted, .chunkStarted, .chunkCompleted]
      match options.outputDirectory with
      | none => ⟨stages, names, .ok result, sifted.seen, tree⟩
      | some directory =>
          let label := sourcesText paths
          let path := documentPath now directory label
          let document := Document.ofChunks now (some label) sifted.kept
          match writeDocument tree path document with
          | .error failure =>
              ⟨stages ++ [.saveStarted], names, .error (.unsaved failure), sifted.seen, tree⟩
          | .ok tree =>
              ⟨stages ++ [.saveStarted, .saveCompleted], names,
                .ok { result with output := some path }, sifted.seen, tree⟩

end Workflow

end SourceChunks
