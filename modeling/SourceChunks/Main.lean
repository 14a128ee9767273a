import Std.Time.DateTime.Timestamp
import SourceChunks.CommandLine.Report
import SourceChunks.Settings.Load

/-!
# The program

Reads the tree below the working directory, the clock and the environment, carries out
the command line, writes the files that are new, and prints.  A path that leads out of
the working directory is refused.
-/

namespace SourceChunks

namespace Program

/-- The file or directory of a directory entry, where at most `depth` directories lie
within one another; what is neither a file nor a directory is left empty. -/
def readEntry : (depth : Nat) → IO.FS.DirEntry → IO Entry
  | 0, _ => pure (.directory [])
  | depth + 1, entry => do
      match (← entry.path.symlinkMetadata).type with
      | .dir =>
          let inner ← (← entry.path.readDir).toList.mapM fun e => do
            pure (e.fileName, ← readEntry depth e)
          pure (.directory inner)
      | .file => pure (.file (← IO.FS.readBinFile entry.path))
      | _ => pure (.directory [])

/-- The tree below the working directory. -/
def readTree : IO Entry := do
  let entries ← (← IO.currentDir).readDir
  let inner ← entries.toList.mapM fun e => do pure (e.fileName, ← readEntry 100 e)
  pure (.directory inner)

/-- The time. -/
def readClock : IO Timestamp := do
  let nanoseconds := (← Std.Time.Timestamp.now).toNanosecondsSinceUnixEpoch.val
  pure ((Timestamp.ofMicroseconds? (Int.fdiv nanoseconds 1000)).getD
    ⟨1970, 1, 1, 0, 0, 0, 0, some 0⟩)

/-- The environment variables that matter. -/
def readEnvironment : IO Environment := do
  let settings := [Setting.maxChunkLength, .workers, .dedupe, .sourceSuffixes, .ignorePatterns,
    .outputDirectory, .logLevel]
  let names := Environment.configVariable ::
    settings.map fun setting => (Environment.lead ++ setting.name).toUpper
  names.filterMapM fun name => do
    pure ((← IO.getEnv name).map (name, ·))

/-- The lines of a table. -/
def tableText (table : Table) : String :=
  "\n".intercalate (table.title :: table.rows.map ("\t".intercalate ·))

/-- Prints one piece of output. -/
def print : Output → IO Unit
  | .line text => IO.println text
  | .message text => IO.eprintln text
  | .table table => IO.println (tableText table)

/-- Writes a new file. -/
def write (path : Path) (bytes : ByteArray) : IO Unit := do
  IO.FS.createDirAll path.parent.text
  IO.FS.writeBinFile path.text bytes

/-- The first path of a command line that leads out of the working directory, of which
nothing is read or written. -/
def outsidePath? (settings : Settings) (arguments : List String) : Option Path :=
  (Command.ofArguments settings arguments).bind fun command =>
    command.paths.find? Path.leadsOutside

/-- Carries out a command line and gives its exit code. -/
def run (arguments : List String) : IO UInt32 := do
  let tree ← readTree
  match Settings.load (← readEnvironment) tree with
  | .error failure =>
      IO.eprintln ("invalid settings " ++ failure.message)
      pure 1
  | .ok settings =>
      match outsidePath? settings arguments with
      | some path =>
          IO.eprintln ("not below the working directory: " ++ path.text)
          pure 2
      | none =>
          let report := Report.ofArguments settings (← readClock) tree arguments
          for (path, bytes) in report.tree.filesBeyond tree do
            write path bytes
          report.output.forM print
          match report.crash with
          | some crash => IO.eprintln crash.message
          | none => pure ()
          pure (UInt32.ofNat report.exitCode)

end Program

end SourceChunks

/-- The program chunks source files and summarises documents of chunks. -/
def main (arguments : List String) : IO UInt32 :=
  SourceChunks.Program.run arguments
