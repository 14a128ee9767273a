import SourceChunks.Text.Blank

/-!
# Log levels

A level is a number, for which a truth value may stand, or one of a few names.  The
names are read without regard to case and to the white space around them.
-/

namespace SourceChunks

/-- A log level. -/
inductive Level where
  /-- A number. -/
  | number (value : Int)
  /-- A truth value, which stands for one or zero. -/
  | flag (value : Bool)
  deriving Repr, DecidableEq

/-- What a level is given as. -/
inductive LevelText where
  /-- The level itself. -/
  | level (level : Level)
  /-- Its name. -/
  | name (name : String)
  deriving Repr, DecidableEq

/-- No level has a given name. -/
structure UnknownLevel where
  /-- The name as it was given. -/
  name : String
  deriving Repr, DecidableEq

/-- The wording of the failure. -/
def UnknownLevel.message (e : UnknownLevel) : String :=
  "Unknown log level: " ++ e.name

namespace Level

/-- The number of a level. -/
def value : Level → Int
  | number n => n
  | flag b => if b then 1 else 0

/-- A level as a text. -/
def text : Level → String
  | number n => toString n
  | flag b => if b then "True" else "False"

/-- The level of ordinary messages. -/
def info : Level := .number 20

/-- The levels that have names. -/
def named : List (String × Int) :=
  [("CRITICAL", 50), ("FATAL", 50), ("ERROR", 40), ("WARN", 30), ("WARNING", 30), ("INFO", 20),
   ("DEBUG", 10), ("NOTSET", 0)]

/-- The capital of a letter as far as the names of levels need it: beyond ASCII, the
dotless i and the long s have capitals that occur in them. -/
def capital (c : Char) : Char :=
  if c.toNat = 0x131 then 'I' else if c.toNat = 0x17F then 'S' else c.toUpper

/-- The level with a name. -/
def ofName (name : String) : Except UnknownLevel Level :=
  let wanted := String.ofList ((Text.trim name.toList).map capital)
  match named.find? (·.1 == wanted) with
  | some (_, n) => .ok (.number n)
  | none => .error ⟨name⟩

/-- Whether a level is one of those with a name. -/
def isNamed (level : Level) : Bool :=
  named.any (·.2 == level.value)

end Level

/-- The level that is meant. -/
def LevelText.resolve : LevelText → Except UnknownLevel Level
  | level l => .ok l
  | name s => Level.ofName s

end SourceChunks
