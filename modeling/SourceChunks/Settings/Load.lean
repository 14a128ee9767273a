import SourceChunks.Document.Decode
import SourceChunks.Settings.Config
import SourceChunks.Toml.Reader

/-!
# Loading settings

Settings are given by a configuration file and by environment variables, where the file
goes before the variables and both go before the standard values.  The names of
variables are read without regard to case.  A list is given as a JSON array by a
variable.  All settings are checked, and every issue is reported.
-/

namespace SourceChunks

/-- The names and values of environment variables. -/
abbrev Environment := List (String × String)

/-- Why there can be no variable with some name and value. -/
inductive VariableFault where
  /-- The name or value holds the null character. -/
  | nullCharacter
  /-- The name holds an equals sign. -/
  | equalsSign
  /-- The name is empty. -/
  | noName
  deriving Repr, DecidableEq

/-- The wording of a fault. -/
def VariableFault.message : VariableFault → String
  | nullCharacter => "embedded null byte"
  | equalsSign => "illegal environment variable name"
  | noName => "[Errno 22] Invalid argument"

/-- Why no settings can be loaded. -/
inductive SettingsFailure where
  /-- There can be no such environment. -/
  | environment (fault : VariableFault)
  /-- The configuration file cannot be read. -/
  | unreadable (failure : AccessFailure)
  /-- The bytes of the configuration file are no text. -/
  | undecodable
  /-- The configuration file has not the right form. -/
  | malformed
  /-- A whole number in the configuration file has too many digits. -/
  | tooManyDigits (count : Nat)
  /-- The configuration file gives no settings. -/
  | config (failure : ConfigFailure)
  /-- Values in the configuration file are nested too deeply. -/
  | tooDeep
  /-- The value of a variable is not JSON. -/
  | variable (setting : Setting)
  /-- Values in the value of a variable are nested too deeply. -/
  | deepVariable (fault : Json.Fault)
  /-- The given values are not those of settings. -/
  | invalid (issues : List Issue)
  deriving Repr, DecidableEq

/-- The wording of a failure; those whose causes say nothing have none. -/
def SettingsFailure.message : SettingsFailure → String
  | environment fault => fault.message
  | unreadable failure => failure.message
  | undecodable => ""
  | malformed => ""
  | tooManyDigits count => (Json.Cause.tooManyDigits count).wording
  | tooDeep => "maximum recursion depth exceeded"
  | config failure => failure.message
  | .variable setting =>
      "error parsing value for field \"" ++ setting.name ++ "\" from source \"EnvSettingsSource\""
  | deepVariable fault => fault.message
  | invalid _ => ""

namespace Environment

/-- What the names of the variables for settings begin with, in lower case. -/
def lead : String := "balchunk_"

/-- The name of the variable with the path of the configuration file. -/
def configVariable : String := "BALCHUNK_CONFIG_PATH"

/-- What is wrong with the name and value of a variable. -/
def fault? (name value : String) : Option VariableFault :=
  let null := Char.ofNat 0
  if name.contains null || value.contains null then some .nullCharacter
  else if name.contains '=' then some .equalsSign
  else if name.isEmpty then some .noName
  else none

/-- An environment that there can be. -/
def check (environment : Environment) : Except VariableFault Unit :=
  match environment.findSome? fun (name, value) => fault? name value with
  | some fault => .error fault
  | none => .ok ()

/-- The last value of a variable whose name in lower case is given. -/
def valueOf? (environment : Environment) (name : String) : Option String :=
  ((environment.filter fun (n, _) => Text.lower n == name).getLast?).map (·.2)

/-- Whether there are variables for the members of a setting. -/
def hasMembers (environment : Environment) (setting : Setting) : Bool :=
  environment.any fun (n, _) =>
    (lead ++ setting.name ++ "__").toList.isPrefixOf (Text.lower n).toList

/-- The value that the variables give to a setting with a simple value. -/
def simple? (environment : Environment) (setting : Setting) : Option Json :=
  (environment.valueOf? (lead ++ setting.name)).map .str

/-- The value that the variables give to a setting with a list; the null value is none. -/
def list? (environment : Environment) (setting : Setting) : Except SettingsFailure (Option Json) :=
  match environment.valueOf? (lead ++ setting.name) with
  | none => .ok (if environment.hasMembers setting then some (.obj []) else none)
  | some text =>
      match Json.parse text.toList with
      | .error fault => .error (if fault.isDepth then .deepVariable fault else .variable setting)
      | .ok .null => .ok none
      | .ok value => .ok (some value)

/-- The settings that the variables give. -/
def given (environment : Environment) : Except SettingsFailure Given := do
  let suffixes ← environment.list? .sourceSuffixes
  let patterns ← environment.list? .ignorePatterns
  let simple := [Setting.maxChunkLength, .workers, .dedupe, .outputDirectory, .logLevel]
  pure (simple.filterMap (fun setting => (environment.simple? setting).map (setting, ·)) ++
    (suffixes.map (Setting.sourceSuffixes, ·)).toList ++
    (patterns.map (Setting.ignorePatterns, ·)).toList)

end Environment

namespace Check

/-- A positive whole number. -/
def positive (json : Json) : Checked Limit :=
  match integer json with
  | .invalid issues => .invalid issues
  | .valid n => if h : 0 < n.toNat then .valid ⟨n.toNat, h⟩ else .issue .notPositive

/-- The words for the truth values. -/
def truthWord? (word : String) : Option Bool :=
  if ["1", "true", "t", "yes", "y", "on"].contains word then some true
  else if ["0", "false", "f", "no", "n", "off"].contains word then some false
  else none

/-- A truth value or a word for one, in any case. -/
def truth : Json → Checked Bool
  | .bool b => .valid b
  | .str s =>
      match truthWord? (String.ofList (s.toList.map Char.toLower)) with
      | some b => .valid b
      | none => .issue .notATruthWord
  | _ => .issue .notATruthValue

/-- A path. -/
def path : Json → Checked Path
  | .str s => .valid (.ofText s)
  | _ => .issue .notAPath

end Check

namespace Settings

/-- The value of a setting: the given one if it passes its check, or the standard one. -/
def check {α : Type} (given : Given) (setting : Setting) (standard : α)
    (test : Json → Checked α) : Checked α :=
  match given.value? setting with
  | some value => (test value).under (.member setting.name)
  | none => .valid standard

/-- The settings with the given values. -/
def ofGiven (given : Given) : Checked Settings :=
  Settings.mk <$> check given .maxChunkLength standard.maxChunkLength Check.positive
    <*> check given .workers standard.workers (fun json => (Check.positive json).map (·.size))
    <*> check given .dedupe standard.dedupe Check.truth
    <*> check given .sourceSuffixes standard.sourceSuffixes (Check.list Check.string)
    <*> check given .ignorePatterns standard.ignorePatterns (Check.list Check.string)
    <*> check given .outputDirectory standard.outputDirectory Check.path
    <*> check given .logLevel standard.logLevel Check.string

/-- The configuration file that holds unless another one is named. -/
def standardFile : Path := ⟨"", ["balchunk_settings.toml"]⟩

/-- The first of some paths at which there is a file. -/
def firstFile? (tree : Entry) : List Path → Except AccessFailure (Option Path)
  | [] => .ok none
  | path :: rest => do
      match ← tree.probe path with
      | some (.file _) => pure (some path)
      | _ => firstFile? tree rest

/-- The configuration file: the one that a variable names, if it is there, or the
standard one, if that is there. -/
def configFile? (environment : Environment) (tree : Entry) : Except AccessFailure (Option Path) :=
  let named :=
    ((environment.find? (·.1 == Environment.configVariable)).map (·.2)).filter (· != "")
  firstFile? tree ((named.map Path.ofText).toList ++ [standardFile])

/-- The members of a configuration file. -/
def readConfig (tree : Entry) (path : Path) : Except SettingsFailure (List (String × Json)) :=
  match tree.read path with
  | .error failure => .error (.unreadable failure)
  | .ok bytes =>
      match Encoding.utf8.decode? bytes with
      | none => .error .undecodable
      | some text =>
          match Toml.parse text.toList with
          | .ok members => .ok members
          | .error .malformed => .error .malformed
          | .error (.tooManyDigits count) => .error (.tooManyDigits count)
          | .error .tooDeep => .error .tooDeep

/-- The settings that an environment and a tree with configuration files give. -/
def load (environment : Environment) (tree : Entry) : Except SettingsFailure Settings := do
  environment.check.mapError .environment
  let members ←
    match ← (configFile? environment tree).mapError .unreadable with
    | some path => readConfig tree path
    | none => .ok []
  let first ← (Config.given members).mapError .config
  let second ← environment.given
  match ofGiven (first ++ second) with
  | .valid settings => .ok settings
  | .invalid issues => .error (.invalid issues)

end Settings

end SourceChunks
