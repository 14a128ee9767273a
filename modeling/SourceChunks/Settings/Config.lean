import SourceChunks.Json.Reader
import SourceChunks.Json.Shown
import SourceChunks.Number.Numeral
import SourceChunks.Settings.Basic

/-!
# Settings in a configuration

A configuration groups the settings in sections.  The value of a setting may have
another form than the setting: a whole number may be a string or have a fraction,
which is cut off, any value stands for a truth value and for a text, and a list of
texts may be one text with commas.  The sections are read one after another, and the
first value that has no right form is an error.
-/

namespace SourceChunks

/-- Why a configuration gives no settings. -/
inductive ConfigFailure where
  /-- The configuration as a whole has no members. -/
  | notATable
  /-- A section or value is of the wrong type. -/
  | wrongType
  /-- A text is not a whole number. -/
  | notANumber (text : String)
  /-- A text has too many digits for a whole number. -/
  | tooManyDigits (count : Nat)
  /-- A whole number has too many digits to be shown as a text. -/
  | unshowable
  /-- A whole number is wanted, and there is an infinity. -/
  | infinite
  /-- A whole number is wanted, and there is a value that is no number. -/
  | undefined
  deriving Repr, DecidableEq

/-- The wording of a failure; a wrong type and an infinity have none. -/
def ConfigFailure.message : ConfigFailure → String
  | notATable => ""
  | wrongType => ""
  | notANumber text =>
      "invalid literal for int() with base 10: " ++
        String.ofList ((Text.quoted text).toList.take 200)
  | tooManyDigits count => (Json.Cause.tooManyDigits count).wording
  | unshowable =>
      "Exceeds the limit (4300 digits) for integer string conversion; " ++
        "use sys.set_int_max_str_digits() to increase the limit"
  | infinite => ""
  | undefined => "cannot convert float NaN to integer"

namespace Config

/-- Whether a text occurs in another one. -/
def occursIn (word : List Char) : List Char → Bool
  | [] => word.isEmpty
  | c :: rest => word.isPrefixOf (c :: rest) || occursIn word rest

/-- Whether a value is a given string. -/
def isText (word : String) : Json → Bool
  | .str s => s == word
  | _ => false

/-- The value of a setting in a section.  A text or list in the place of a section does
not matter as long as the name of the setting does not occur in it. -/
def value? (part : Json) (name : String) : Except ConfigFailure (Option Json) :=
  match part with
  | .obj members => .ok (Json.lookup name members)
  | .str s => if occursIn name.toList s.toList then .error .wrongType else .ok none
  | .arr items => if items.any (isText name) then .error .wrongType else .ok none
  | _ => .error .wrongType

/-- A value as a whole number. -/
def integer : Json → Except ConfigFailure Json
  | .int n => .ok (.int n)
  | .bool b => .ok (.int (if b then 1 else 0))
  | .real (.infinite _) => .error .infinite
  | .real x =>
      match x.truncate? with
      | some n => .ok (.int n)
      | none => .error .undefined
  | .str s =>
      match Numeral.liberal s.toList with
      | .ok n => .ok (.int n)
      | .error .notANumber => .error (.notANumber s)
      | .error (.tooManyDigits count) => .error (.tooManyDigits count)
  | _ => .error .wrongType

/-- Whether a value is neither empty nor zero. -/
def isTruthy : Json → Bool
  | .null => false
  | .bool b => b
  | .int n => n != 0
  | .real x => !x.isZero
  | .str s => s != ""
  | .arr items => !items.isEmpty
  | .obj members => !members.isEmpty

/-- The stretches of a text between commas; `piece` holds the characters of the current
one, the latest first. -/
def splitCommas (piece : List Char) : List Char → List (List Char)
  | [] => [piece.reverse]
  | c :: rest =>
      if c = ',' then piece.reverse :: splitCommas [] rest else splitCommas (c :: piece) rest

/-- A value as the text that shows it. -/
def text (json : Json) : Except ConfigFailure Json :=
  match json.shown? with
  | some s => .ok (.str s)
  | none => .error .unshowable

/-- A value as a list of texts. -/
def texts : Json → Except ConfigFailure Json
  | .str s =>
      let items := (splitCommas [] s.toList).map Text.trim
      .ok (.arr ((items.filter (!·.isEmpty)).map fun item => .str (String.ofList item)))
  | .arr items => (items.mapM text).map .arr
  | .obj members => .ok (.arr (members.map fun (name, _) => .str name))
  | _ => .error .wrongType

/-- A value as a truth value. -/
def truth (json : Json) : Except ConfigFailure Json :=
  .ok (.bool (isTruthy json))

/-- Where the settings stand, in the order in which they are read: the section, the name
in it, the setting, and how its value is read. -/
def entries : List (String × String × Setting × (Json → Except ConfigFailure Json)) :=
  [("chunking", "max_chunk_length", .maxChunkLength, integer),
   ("chunking", "workers", .workers, integer),
   ("chunking", "dedupe", .dedupe, truth),
   ("sources", "suffixes", .sourceSuffixes, texts),
   ("sources", "ignore", .ignorePatterns, texts),
   ("output", "directory", .outputDirectory, .ok),
   ("logging", "level", .logLevel, text)]

/-- The settings in the members of a configuration. -/
def given (members : List (String × Json)) : Except ConfigFailure Given := do
  let found ← entries.mapM fun (place, name, setting, read) => do
    match ← value? ((Json.lookup place members).getD (.obj [])) name with
    | none => pure none
    | some value => pure (some (setting, ← read value))
  pure (found.filterMap id)

/-- The settings in a configuration. -/
def givenIn : Json → Except ConfigFailure Given
  | .obj members => given members
  | _ => .error .notATable

end Config

end SourceChunks
