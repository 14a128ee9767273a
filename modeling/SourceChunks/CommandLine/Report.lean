import SourceChunks.CommandLine.Arguments
import SourceChunks.Logging.Setup
import SourceChunks.Run
import SourceChunks.Version

/-!
# Executing commands

A command prints lines and tables and ends with an exit code.  It may also change the
tree, by a document or log file.  What keeps a command from being carried out to the
end is reported beside the exit code, with what was printed before.
-/

namespace SourceChunks

/-- A table of texts. -/
structure Table where
  title : String
  rows : List (List String)
  deriving Repr, DecidableEq

/-- What a command prints. -/
inductive Output where
  /-- A text and a line end. -/
  | line (text : String)
  /-- A text and a line end, among the messages. -/
  | message (text : String)
  | table (table : Table)
  deriving Repr, DecidableEq

/-- What keeps a command from being carried out to the end. -/
inductive Crash where
  /-- A path cannot be looked up. -/
  | refused (failure : AccessFailure)
  /-- Loading documents ended early. -/
  | load (failure : LoadFailure)
  /-- The log cannot be set up. -/
  | log (failure : LogFailure)
  /-- The run failed. -/
  | run (failure : RunFailure)
  deriving Repr, DecidableEq

/-- A command that is over. -/
structure Report where
  exitCode : Nat
  crash : Option Crash := none
  output : List Output := []
  /-- The tree afterwards. -/
  tree : Entry

/-- The wording of a crash; bytes that are no text have none. -/
def Crash.message : Crash → String
  | refused failure => failure.message
  | load failure => failure.message
  | log failure => failure.message
  | run failure => failure.message

/-- The number of chunks of each kind and of all, sorted by kind. -/
def countTable (title : String) (chunks : List Chunk) : Table where
  title := title
  rows :=
    (Text.sortedByName (kindCounts chunks)).map (fun (name, n) => [name, toString n]) ++
      [["[bold]total[/bold]", toString chunks.length]]

namespace Report

/-- The report of a command that was not carried out to the end, and what it had printed
before. -/
def ofCrash (crash : Crash) (printed : List Output) (tree : Entry) : Report :=
  { exitCode := 1, crash := some crash, output := printed, tree := tree }

/-- What a run prints. -/
def ofRun (now : Timestamp) (options : ChunkOptions) (result : RunResult) : List Output :=
  if options.toOutput then
    [.line (Document.ofChunks now (some (sourcesText options.paths)) result.chunks).text]
  else
    [.table (countTable "Chunks by kind" result.chunks),
     .line (s!"Chunked {result.files.length} file(s) -> " ++
      (result.output.map Path.text).getD "None" ++
      s!" chunks={result.chunks.length} duplicates={result.duplicates.length}")]

/-- The report of the chunk command on paths that are all there, with the messages that
were printed before. -/
def chunkExisting (settings : Settings) (now : Timestamp) (options : ChunkOptions)
    (messages : List Output) (tree : Entry) : Report :=
  let workflow : Workflow := ⟨settings.selection, options.chunker⟩
  let run := workflow.run now tree ∅
    ⟨options.dedupe, if options.toOutput then none else some options.outputDirectory⟩ options.paths
  match run.outcome with
  | .error failure => ofCrash (.run failure) messages run.tree
  | .ok result => { exitCode := 0, output := messages ++ ofRun now options result, tree := run.tree }

/-- The report of the chunk command. -/
def chunk (settings : Settings) (now : Timestamp) (tree : Entry) (options : ChunkOptions) : Report :=
  match options.paths.mapM tree.probe with
  | .error failure => ofCrash (.refused failure) [] tree
  | .ok found =>
      let missing := (options.paths.zip found).filter fun (_, entry) => entry.isNone
      if !missing.isEmpty then
        { exitCode := 2,
          output := missing.map fun (path, _) => .message ("[ERROR] Path not found: " ++ path.text),
          tree := tree }
      else
        match options.logFile with
        | none => chunkExisting settings now options [] tree
        | some path =>
            match LogSetup.toFile tree path.resolved (.name settings.logLevel) with
            | .error failure => ofCrash (.log failure) [] tree
            | .ok (_, tree) =>
                chunkExisting settings now options
                  [.message ("Logging detailed output to " ++ path.resolved.text)] tree

/-- What the inspect command prints about a document. -/
def ofDocument (path : Path) (document : Document) : List Output :=
  let source := (document.summary.sourceDirectory.filter (· != "")).getD "unknown source"
  let files := (document.chunks.map (·.file)).eraseDups
  [.table (countTable (path.name ++ " (" ++ source ++ ")") document.chunks),
   .line (s!"Generated at {document.summary.generatedAt.isoText} files={files.length}")]

/-- The report of the inspect command. -/
def inspect (now : Timestamp) (tree : Entry) (paths : List Path) : Report :=
  match loadBatch now tree paths with
  | .error failure => ofCrash (.load failure) [] tree
  | .ok batch =>
      { exitCode := if batch.failed.isEmpty then 0 else 1,
        output :=
          (batch.loaded.flatMap fun (path, document) => ofDocument path document) ++
            batch.failed.map fun (path, failure) =>
              .message ("[ERROR] " ++ path.text ++ ": " ++ failure.message),
        tree := tree }

/-- The report of a command line.  One that names no command has no effect. -/
def ofArguments (settings : Settings) (now : Timestamp) (tree : Entry) (arguments : List String) :
    Report :=
  match Command.ofArguments settings arguments with
  | none => { exitCode := 2, tree := tree }
  | some .help => { exitCode := 0, tree := tree }
  | some .version => { exitCode := 0, output := [.line version], tree := tree }
  | some (.chunk options) => chunk settings now tree options
  | some (.inspect documents) => inspect now tree documents

end Report

end SourceChunks
