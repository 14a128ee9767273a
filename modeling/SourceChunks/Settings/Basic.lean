import SourceChunks.Chunk.Bound
import SourceChunks.Files.Discovery
import SourceChunks.Json.Value

/-!
# Settings

What can be set for all runs, and the values that hold unless others are given.
-/

namespace SourceChunks

/-- The names of the settings. -/
inductive Setting where
  | maxChunkLength
  | workers
  | dedupe
  | sourceSuffixes
  | ignorePatterns
  | outputDirectory
  | logLevel
  deriving Repr, DecidableEq

/-- The name of a setting as it is written. -/
def Setting.name : Setting → String
  | maxChunkLength => "max_chunk_length"
  | workers => "workers"
  | dedupe => "dedupe"
  | sourceSuffixes => "source_suffixes"
  | ignorePatterns => "ignore_patterns"
  | outputDirectory => "output_dir"
  | logLevel => "log_level"

/-- Values that are given for some of the settings and are not checked yet. -/
abbrev Given := List (Setting × Json)

/-- The value that is given for a setting. -/
def Given.value? (given : Given) (setting : Setting) : Option Json :=
  (given.find? (·.1 == setting)).map (·.2)

/-- What can be set for all runs. -/
structure Settings where
  /-- The greatest length of a chunk's text. -/
  maxChunkLength : Limit
  /-- How many files are worked on at a time. -/
  workers : Nat
  /-- Whether chunks with a known text are dropped. -/
  dedupe : Bool
  /-- The suffixes of source files. -/
  sourceSuffixes : List String
  /-- The patterns of names that are ignored besides the standard ones. -/
  ignorePatterns : List String
  /-- Where documents are saved. -/
  outputDirectory : Path
  /-- The level of the log. -/
  logLevel : String
  deriving Repr, DecidableEq

namespace Settings

/-- The settings that hold unless others are given. -/
def standard : Settings where
  maxChunkLength := .standard
  workers := 1
  dedupe := true
  sourceSuffixes := Selection.standardSuffixes
  ignorePatterns := []
  outputDirectory := ⟨"", ["chunks"]⟩
  logLevel := "INFO"

/-- The source files that the settings select. -/
def selection (s : Settings) : Selection :=
  .ofLists s.sourceSuffixes s.ignorePatterns

/-- The chunker with a limit and a number of workers, for each of which the settings
stand in if it is not given or zero. -/
def chunker (s : Settings) (maxChunkLength workers : Option Int) : Except NotPositive Chunker :=
  Chunker.ofInts ((maxChunkLength.filter (· != 0)).getD s.maxChunkLength.size)
    ((workers.filter (· != 0)).getD s.workers)

end Settings

end SourceChunks
