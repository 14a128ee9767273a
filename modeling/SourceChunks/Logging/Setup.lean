import SourceChunks.Files.Tree
import SourceChunks.Logging.Level

/-!
# Log setups

Log messages from a level on go to one handler: the console, which may have a level of
its own, a file, or nowhere.  The level of the whole must be one of those with a name.
-/

namespace SourceChunks

/-- Where log messages go. -/
inductive LogHandler where
  /-- To the console, from a level on. -/
  | console (level : Level)
  /-- Nowhere. -/
  | silent
  /-- To a file. -/
  | file
  deriving Repr, DecidableEq

/-- From which level on messages are logged, and where they go. -/
structure LogSetup where
  level : Level
  handler : LogHandler
  deriving Repr, DecidableEq

/-- Why a log cannot be set up. -/
inductive LogFailure where
  /-- A level has no such name. -/
  | unknown (failure : UnknownLevel)
  /-- The level of the whole is not one of those with a name. -/
  | unnamed (level : Level)
  /-- The file cannot be written. -/
  | unwritable (failure : AccessFailure)
  deriving Repr, DecidableEq

/-- The wording of a failure. -/
def LogFailure.message : LogFailure → String
  | unknown failure => failure.message
  | unnamed level => level.text
  | unwritable failure => failure.message

namespace LogSetup

/-- A setup whose level is one of those with a name. -/
def install (level : Level) (handler : LogHandler) : Except LogFailure LogSetup :=
  if level.isNamed then .ok ⟨level, handler⟩ else .error (.unnamed level)

/-- A log on the console or nowhere.  The level of the console is that of the whole
unless another one is given. -/
def toConsole (level : LevelText) (enabled : Bool) (consoleLevel : Option LevelText) :
    Except LogFailure LogSetup := do
  let base ← level.resolve.mapError .unknown
  if enabled then
    let own ← ((consoleLevel.map LevelText.resolve).getD (.ok base)).mapError .unknown
    install base (.console own)
  else install base .silent

/-- A log in a file, which is made empty, and the tree with that file. -/
def toFile (tree : Entry) (path : Path) (level : LevelText) :
    Except LogFailure (LogSetup × Entry) := do
  let tree ← (tree.makeDirectories path.parent).mapError .unwritable
  let tree ← (tree.write path ByteArray.empty).mapError .unwritable
  let base ← level.resolve.mapError .unknown
  pure (← install base .file, tree)

end LogSetup

end SourceChunks
