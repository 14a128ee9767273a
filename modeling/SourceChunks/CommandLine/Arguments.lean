import SourceChunks.Number.Numeral
import SourceChunks.Settings.Basic

/-!
# Command lines

A command line names a command, and then its options and arguments in any order.  A
long option has two hyphens and may have its value behind an equals sign; a short one
has one hyphen and a letter, and may have its value right behind it.  Two hyphens alone
end the options.  Of several values of one option, the last one counts.
-/

namespace SourceChunks

/-- What the chunk command is asked to do. -/
structure ChunkOptions where
  /-- The files and directories to be chunked, of which there is at least one. -/
  paths : List Path
  /-- Where the document is saved. -/
  outputDirectory : Path
  chunker : Chunker
  /-- Whether chunks with a known text are dropped. -/
  dedupe : Bool
  /-- Whether the document is printed and not saved. -/
  toOutput : Bool
  /-- Where log messages go. -/
  logFile : Option Path
  deriving Repr, DecidableEq

/-- A command. -/
inductive Command where
  /-- Chunk source files. -/
  | chunk (options : ChunkOptions)
  /-- Summarise documents. -/
  | inspect (documents : List Path)
  /-- Show the version. -/
  | version
  /-- Show how the program is used. -/
  | help
  deriving Repr, DecidableEq

/-- The paths that a command works on. -/
def Command.paths : Command → List Path
  | chunk options => options.paths ++ options.outputDirectory :: options.logFile.toList
  | inspect documents => documents
  | version => []
  | help => []

namespace Arguments

/-- What an option says. -/
inductive Choice where
  | outputDirectory (text : String)
  | maxChunkLength (text : String)
  | workers (text : String)
  | dedupe (value : Bool)
  | toOutput
  | logFile (text : String)
  | help
  deriving Repr, DecidableEq

/-- An option: one that says something by itself, or one that needs a value. -/
inductive Form where
  | flag (choice : Choice)
  | valued (choice : String → Choice)

/-- The names of the options of a command. -/
abbrev Names := List (String × Form)

/-- The options of every command. -/
def commonNames : Names := [("--help", .flag .help)]

/-- The options of the chunk command. -/
def chunkNames : Names :=
  [("--output-dir", .valued .outputDirectory), ("-o", .valued .outputDirectory),
   ("--max-chunk-length", .valued .maxChunkLength), ("-m", .valued .maxChunkLength),
   ("--dedupe", .flag (.dedupe true)), ("--no-dedupe", .flag (.dedupe false)),
   ("--workers", .valued .workers), ("-w", .valued .workers), ("--stdout", .flag .toOutput),
   ("--log", .valued .logFile)] ++ commonNames

/-- The option with a name. -/
def form? (names : Names) (name : String) : Option Form :=
  (names.find? (·.1 == name)).map (·.2)

/-- What the options say, in order, and the arguments besides them. -/
structure Parsed where
  choices : List Choice := []
  rest : List String := []
  deriving Repr, DecidableEq

/-- The result with one more choice in front. -/
def Parsed.withChoice (choice : Choice) (p : Parsed) : Parsed :=
  { p with choices := choice :: p.choices }

/-- The result with one more argument in front. -/
def Parsed.withArgument (argument : String) (p : Parsed) : Parsed :=
  { p with rest := argument :: p.rest }

/-- The parts of a long option before and behind its first equals sign. -/
def splitValue (s : List Char) : String × Option String :=
  let name := s.takeWhile (· != '=')
  match s.drop name.length with
  | _ :: value => (String.ofList name, some (String.ofList value))
  | [] => (String.ofList name, none)

/-- One argument as it stands on the command line. -/
inductive Word where
  /-- Not an option. -/
  | plain
  /-- The end of the options. -/
  | ending
  /-- An option that is complete. -/
  | choice (choice : Choice)
  /-- An option whose value is the next argument. -/
  | needsValue (choice : String → Choice)
  /-- No option of the command, or not in the right form. -/
  | unknown

/-- What an argument is. -/
def wordOf (names : Names) (argument : String) : Word :=
  match argument.toList with
  | ['-', '-'] => .ending
  | '-' :: '-' :: _ =>
      match splitValue argument.toList with
      | (name, none) =>
          match form? names name with
          | some (.flag choice) => .choice choice
          | some (.valued choice) => .needsValue choice
          | none => .unknown
      | (name, some value) =>
          match form? names name with
          | some (.valued choice) => .choice (choice value)
          | _ => .unknown
  | '-' :: letter :: value =>
      match form? names (String.ofList ['-', letter]) with
      | some (.valued choice) =>
          if value.isEmpty then .needsValue choice else .choice (choice (String.ofList value))
      | _ => .unknown
  | _ => .plain

/-- The options and arguments of a command; none if there is an unknown option, or one
without its value. -/
def parse (names : Names) : List String → Option Parsed
  | [] => some {}
  | argument :: rest =>
      match wordOf names argument with
      | .plain => (parse names rest).map (.withArgument argument)
      | .ending => some ⟨[], rest⟩
      | .choice choice => (parse names rest).map (.withChoice choice)
      | .needsValue choice =>
          match rest with
          | [] => none
          | value :: rest => (parse names rest).map (.withChoice (choice value))
      | .unknown => none

/-- A positive whole number. -/
def positive? (text : String) : Option Limit :=
  match Numeral.strict text.toList with
  | .ok n => if h : 0 < n.toNat then some ⟨n.toNat, h⟩ else none
  | .error _ => none

/-- The path that an argument names; the null character cannot stand in an argument. -/
def path? (text : String) : Option Path :=
  if text.contains (Char.ofNat 0) then none else some (.ofText text)

/-- The last of the choices of some sort. -/
def last? {α : Type} (choices : List Choice) (pick : Choice → Option α) : Option α :=
  (choices.filterMap pick).getLast?

/-- The value of an option that has to be read, where a standard value stands in if the
option is not there. -/
def readOr? {α : Type} (read : String → Option α) (standard : α) : Option String → Option α
  | none => some standard
  | some text => read text

/-- The options of the chunk command; none if there is no path, or a path or number is
not in the right form. -/
def chunkOptions? (settings : Settings) (parsed : Parsed) : Option ChunkOptions := do
  let last {α : Type} (pick : Choice → Option α) : Option α := last? parsed.choices pick
  let limit ← readOr? positive? settings.maxChunkLength
    (last fun | .maxChunkLength text => some text | _ => none)
  let workers ← readOr? (fun text => (positive? text).map (·.size)) settings.workers
    (last fun | .workers text => some text | _ => none)
  let outputDirectory ← readOr? path? settings.outputDirectory
    (last fun | .outputDirectory text => some text | _ => none)
  let logFile ← readOr? (fun text => (path? text).map some) none
    (last fun | .logFile text => some text | _ => none)
  let paths ← parsed.rest.mapM path?
  if paths.isEmpty then none
  else
    some {
      paths := paths
      outputDirectory := outputDirectory
      chunker := ⟨limit, workers⟩
      dedupe := (last fun | .dedupe value => some value | _ => none).getD settings.dedupe
      toOutput := parsed.choices.contains .toOutput
      logFile := logFile }

/-- The command with a name and some arguments. -/
def commandOf (settings : Settings) (name : String) (arguments : List String) : Option Command :=
  let withOptions (names : Names) (make : Parsed → Option Command) : Option Command := do
    let parsed ← parse names arguments
    if parsed.choices.contains .help then some .help else make parsed
  match name with
  | "chunk" =>
      withOptions chunkNames fun parsed => (chunkOptions? settings parsed).map .chunk
  | "inspect" =>
      withOptions commonNames fun parsed => do
        let documents ← parsed.rest.mapM path?
        if documents.isEmpty then none else some (.inspect documents)
  | "version" =>
      withOptions commonNames fun parsed => if parsed.rest.isEmpty then some .version else none
  | _ => none

end Arguments

/-- Whether the options in front of some arguments are all known. -/
def Arguments.beginsWell : List String → Bool
  | [] => true
  | argument :: rest =>
      match Arguments.wordOf Arguments.commonNames argument with
      | .choice _ => Arguments.beginsWell rest
      | .unknown => false
      | _ => true

/-- The command on a command line; none if there is no such command. -/
def Command.ofArguments (settings : Settings) : List String → Option Command
  | [] => none
  | first :: rest =>
      match Arguments.wordOf Arguments.commonNames first, rest with
      | .plain, arguments => Arguments.commandOf settings first arguments
      | .ending, name :: arguments => Arguments.commandOf settings name arguments
      | .choice _, rest => if Arguments.beginsWell rest then some .help else none
      | _, _ => none

end SourceChunks
