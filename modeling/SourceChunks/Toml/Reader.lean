import SourceChunks.Number.Numeral
import SourceChunks.Text.Hex
import SourceChunks.Toml.Table

/-!
# Reading configuration texts

A configuration text is a sequence of lines with a header, or a key and a value, or
neither.  The reader takes it apart from left to right; each part of it gives back what
it read and the text that is left.  Values are strings of four forms, numbers, truth
values, arrays and inline tables; dates and times are not read.
-/

namespace SourceChunks.Toml

/-- Why a text is no configuration. -/
inductive Failure where
  /-- It has not the form of one, or says something twice. -/
  | malformed
  /-- A whole number has more digits than can be read. -/
  | tooManyDigits (count : Nat)
  /-- Values are nested more deeply than can be read. -/
  | tooDeep
  deriving Repr, DecidableEq

/-- What a part of the reader gives: a value and the text that is left. -/
abbrev Step (α : Type) := Except Failure (α × List Char)

/-- A blank within a line. -/
def isBlank (c : Char) : Bool :=
  c == ' ' || c == '\t'

/-- A text without leading blanks. -/
def skipBlanks (s : List Char) : List Char :=
  s.dropWhile isBlank

/-- A text without leading blanks and line ends. -/
def skipLines (s : List Char) : List Char :=
  s.dropWhile fun c => isBlank c || c == '\n'

/-- Whether a character must not stand in strings and comments. -/
def isControl (c : Char) : Bool :=
  (c.toNat < 32 && c != '\t') || c.toNat = 127

/-- Whether a character must not stand in strings of several lines. -/
def isForbidden (c : Char) : Bool :=
  isControl c && c != '\n'

/-- A text behind the comment that it may begin with. -/
def skipComment (s : List Char) : Except Failure (List Char) :=
  match s with
  | '#' :: rest =>
      if (rest.takeWhile (· != '\n')).any isControl then .error .malformed
      else .ok (rest.dropWhile (· != '\n'))
  | _ => .ok s

/-- A text without leading blanks, line ends and comments. -/
def skipInArray : (fuel : Nat) → List Char → Except Failure (List Char)
  | 0, s => .ok s
  | fuel + 1, s =>
      match skipLines s with
      | '#' :: rest => do skipInArray fuel (← skipComment ('#' :: rest))
      | rest => .ok rest

/-! ## Strings -/

/-- The character with a number of `count` hexadecimal digits. -/
def readHex (count : Nat) (s : List Char) : Step Char :=
  match (s.take count).mapM Text.hexValue? with
  | none => .error .malformed
  | some digits =>
      let n := digits.foldl (fun n d => 16 * n + d) 0
      if digits.length = count && n.isValidChar then .ok (Char.ofNat n, s.drop count)
      else .error .malformed

/-- What an escape stands for, behind its backslash.  In a string of several lines a
backslash at the end of a line stands for nothing and takes all blanks and line ends
behind it along. -/
def readEscape (multiline : Bool) (s : List Char) : Step (List Char) :=
  match s with
  | [] => .error .malformed
  | c :: rest =>
      if multiline && (isBlank c || c == '\n') then
        match skipBlanks s with
        | [] => .ok ([], [])
        | '\n' :: rest => .ok ([], skipLines rest)
        | _ => .error .malformed
      else
        match c with
        | 'b' => .ok ([Char.ofNat 8], rest)
        | 't' => .ok (['\t'], rest)
        | 'n' => .ok (['\n'], rest)
        | 'f' => .ok ([Char.ofNat 12], rest)
        | 'r' => .ok (['\r'], rest)
        | '"' => .ok (['"'], rest)
        | '\\' => .ok (['\\'], rest)
        | 'u' => (readHex 4 rest).map fun (x, rest) => ([x], rest)
        | 'U' => (readHex 8 rest).map fun (x, rest) => ([x], rest)
        | _ => .error .malformed

/-- A string on one line behind its opening quote; `done` holds the characters that were
read, the latest first. -/
def readBasic : (fuel : Nat) → (done : List Char) → List Char → Step String
  | 0, _, _ => .error .malformed
  | _ + 1, _, [] => .error .malformed
  | fuel + 1, done, c :: rest =>
      if c = '"' then .ok (String.ofList done.reverse, rest)
      else if c = '\\' then
        match readEscape false rest with
        | .error e => .error e
        | .ok (found, rest) => readBasic fuel (found.reverse ++ done) rest
      else if isControl c then .error .malformed
      else readBasic fuel (c :: done) rest

/-- A string of several lines up to its closing quotes; `done` holds the characters that
were read, the latest first, and is what is given back. -/
def readLines : (fuel : Nat) → (done : List Char) → List Char → Step (List Char)
  | 0, _, _ => .error .malformed
  | _ + 1, _, [] => .error .malformed
  | fuel + 1, done, c :: rest =>
      match c, rest with
      | '"', '"' :: '"' :: rest => .ok (done, rest)
      | '\\', rest =>
          match readEscape true rest with
          | .error e => .error e
          | .ok (found, rest) => readLines fuel (found.reverse ++ done) rest
      | c, rest => if isForbidden c then .error .malformed else readLines fuel (c :: done) rest

/-- A string of several lines without escapes, up to its closing quotes. -/
def readRawLines : (done : List Char) → List Char → Step (List Char)
  | _, [] => .error .malformed
  | done, c :: rest =>
      match c, rest with
      | '\'', '\'' :: '\'' :: rest => .ok (done, rest)
      | c, rest => if isForbidden c then .error .malformed else readRawLines (c :: done) rest

/-- A string of several lines whose closing quotes were read, with up to two quotes that
stand behind them and belong to it. -/
def withExtraQuotes (quote : Char) (done rest : List Char) : String × List Char :=
  let extra := ((rest.take 2).takeWhile (· == quote)).length
  (String.ofList (done.reverse ++ List.replicate extra quote), rest.drop extra)

/-- A text without the line end that it may begin with. -/
def skipLineEnd (s : List Char) : List Char :=
  match s with
  | '\n' :: rest => rest
  | _ => s

/-- A string on one line without escapes, behind its opening quote. -/
def readRaw (s : List Char) : Step String :=
  let content := s.takeWhile (· != '\'')
  match s.drop content.length with
  | _ :: rest => if content.any isControl then .error .malformed else .ok (String.ofList content, rest)
  | [] => .error .malformed

/-- A string of any form behind its first quote. -/
def readString (quote : Char) (s : List Char) : Step String :=
  if quote = '"' then
    match s with
    | '"' :: '"' :: rest =>
        (readLines (s.length + 1) [] (skipLineEnd rest)).map fun (done, rest) =>
          withExtraQuotes '"' done rest
    | _ => readBasic (s.length + 1) [] s
  else
    match s with
    | '\'' :: '\'' :: rest =>
        (readRawLines [] (skipLineEnd rest)).map fun (done, rest) =>
          withExtraQuotes '\'' done rest
    | _ => readRaw s

/-! ## Keys -/

/-- Whether a character may stand in a key without quotes. -/
def isKeyChar (c : Char) : Bool :=
  c.isAlphanum || c == '-' || c == '_'

/-- One name of a key. -/
def readName (s : List Char) : Step String :=
  match s with
  | '"' :: rest => readBasic (s.length + 1) [] rest
  | '\'' :: rest => readRaw rest
  | _ =>
      let name := s.takeWhile isKeyChar
      if name.isEmpty then .error .malformed else .ok (String.ofList name, s.drop name.length)

/-- A key: names with dots between them, and the blanks behind it. -/
def readKey : (fuel : Nat) → List Char → Step (List String)
  | 0, _ => .error .malformed
  | fuel + 1, s =>
      match readName s with
      | .error e => .error e
      | .ok (name, rest) =>
          match skipBlanks rest with
          | '.' :: rest =>
              (readKey fuel (skipBlanks rest)).map fun (names, rest) => (name :: names, rest)
          | rest => .ok ([name], rest)

/-! ## Numbers -/

/-- The digits that a text begins with, where single underscores may stand between two
digits. -/
def digitRun (isDigit : Char → Bool) : List Char → List Char × List Char
  | [] => ([], [])
  | '_' :: d :: rest =>
      if isDigit d then
        let (digits, rest) := digitRun isDigit rest
        (d :: digits, rest)
      else ([], '_' :: d :: rest)
  | d :: rest =>
      if isDigit d then
        let (digits, rest) := digitRun isDigit rest
        (d :: digits, rest)
      else ([], d :: rest)

/-- The digits that a text begins with, the first of which is not an underscore. -/
def digits (isDigit : Char → Bool) (s : List Char) : List Char × List Char :=
  match s with
  | '_' :: _ => ([], s)
  | _ => digitRun isDigit s

/-- A whole number in another base, behind its zero and letter. -/
def readInBase (base : Nat) (s : List Char) : Option (Int × List Char) :=
  let isDigit (c : Char) : Bool := (Text.hexValue? c).any (· < base)
  match digits isDigit s with
  | ([], _) => none
  | (found, rest) =>
      some (((found.filterMap Text.hexValue?).foldl (fun n d => base * n + d) 0 : Nat), rest)

/-- The whole part of a number. -/
def readWhole (s : List Char) : List Char × List Char :=
  match s with
  | '0' :: rest => (['0'], rest)
  | _ => digits Char.isDigit s

/-- The digits behind a point. -/
def readFraction (s : List Char) : List Char × List Char :=
  match s with
  | '.' :: rest =>
      match digits Char.isDigit rest with
      | ([], _) => ([], s)
      | found => found
  | _ => ([], s)

/-- The sign that a text may begin with. -/
def readSign (s : List Char) : Bool × List Char :=
  match s with
  | '-' :: rest => (true, rest)
  | '+' :: rest => (false, rest)
  | _ => (false, s)

/-- An exponent. -/
def readExponent (s : List Char) : Option Int × List Char :=
  match s with
  | c :: rest =>
      if c = 'e' || c = 'E' then
        let (negative, rest) := readSign rest
        match digits Char.isDigit rest with
        | ([], _) => (none, s)
        | (found, rest) =>
            let n : Int := Nat.ofDigitChars 10 found 0
            (some (if negative then -n else n), rest)
      else (none, s)
  | [] => (none, s)

/-- A number in base ten. -/
def readDecimal (s : List Char) : Step Json :=
  let (negative, rest) := readSign s
  match readWhole rest with
  | ([], _) => .error .malformed
  | (whole, rest) =>
      let (fraction, rest) := readFraction rest
      let (exponent, rest) := readExponent rest
      if fraction.isEmpty && exponent.isNone then
        if whole.length > Numeral.digitLimit then .error (.tooManyDigits whole.length)
        else
          let n : Int := Nat.ofDigitChars 10 whole 0
          .ok (.int (if negative then -n else n), rest)
      else
        .ok (.real (Binary64.ofDecimal negative (Nat.ofDigitChars 10 (whole ++ fraction) 0)
          (exponent.getD 0 - fraction.length)), rest)

/-- The values that are written as words. -/
def wordValues : List (List Char × Json) :=
  [("true".toList, .bool true), ("false".toList, .bool false),
   ("inf".toList, .real (.infinite false)), ("+inf".toList, .real (.infinite false)),
   ("-inf".toList, .real (.infinite true)), ("nan".toList, .real .nan),
   ("+nan".toList, .real .nan), ("-nan".toList, .real .nan)]

/-- A number or a word. -/
def readScalar (s : List Char) : Step Json :=
  let inBase : Option (Int × List Char) :=
    match s with
    | '0' :: 'x' :: rest => readInBase 16 rest
    | '0' :: 'o' :: rest => readInBase 8 rest
    | '0' :: 'b' :: rest => readInBase 2 rest
    | _ => none
  match inBase with
  | some (n, rest) => .ok (.int n, rest)
  | none =>
      match wordValues.find? fun (word, _) => word.isPrefixOf s with
      | some (word, value) => .ok (value, s.drop word.length)
      | none => readDecimal s

/-! ## Values -/

/-- What an array takes of the room for nested values. -/
def arrayDepth : Nat := 2

/-- What an inline table takes of the room for nested values. -/
def tableDepth : Nat := 3

/-- The room for nested values. -/
def depthLimit : Nat := 986

mutual

/-- A value, where `room` is left for values within it. -/
def readValue : (fuel room : Nat) → List Char → Except Failure (Json × List Char)
  | 0, _, _ => .error .malformed
  | fuel + 1, room, s =>
      match s with
      | '"' :: rest => (readString '"' rest).map fun (text, rest) => (.str text, rest)
      | '\'' :: rest => (readString '\'' rest).map fun (text, rest) => (.str text, rest)
      | '[' :: rest =>
          if room < arrayDepth then .error .tooDeep
          else do readItems fuel (room - arrayDepth) [] (← skipInArray (rest.length + 1) rest)
      | '{' :: rest =>
          if room < tableDepth then .error .tooDeep
          else
            match skipBlanks rest with
            | '}' :: rest => .ok (.obj [], rest)
            | rest => readInline fuel (room - tableDepth) [] rest
      | _ => readScalar s

/-- The items of an array that are left; `done` holds those that were read, the latest
first. -/
def readItems :
    (fuel room : Nat) → (done : List Json) → List Char → Except Failure (Json × List Char)
  | 0, _, _, _ => .error .malformed
  | fuel + 1, room, done, s =>
      match s with
      | ']' :: rest => .ok (.arr done.reverse, rest)
      | _ => do
          let (item, rest) ← readValue fuel room s
          match ← skipInArray (rest.length + 1) rest with
          | ',' :: rest => readItems fuel room (item :: done) (← skipInArray (rest.length + 1) rest)
          | ']' :: rest => .ok (.arr (item :: done).reverse, rest)
          | _ => .error .malformed

/-- The members of an inline table from one on; `done` holds those that were read. -/
def readInline :
    (fuel room : Nat) → (done : Members) → List Char → Except Failure (Json × List Char)
  | 0, _, _, _ => .error .malformed
  | fuel + 1, room, done, s => do
      let (key, rest) ← readKey (s.length + 1) s
      match rest with
      | '=' :: rest =>
          let (value, rest) ← readValue fuel room (skipBlanks rest)
          match done.assign 0 value key with
          | none => .error .malformed
          | some done =>
              match skipBlanks rest with
              | '}' :: rest => .ok (.obj (membersJson done), rest)
              | ',' :: rest => readInline fuel room done (skipBlanks rest)
              | _ => .error .malformed
      | _ => .error .malformed

end

/-! ## Lines -/

/-- What was read of a configuration: its tables, the header of the current block of
lines, and the number of that block. -/
structure State where
  members : Members := []
  header : List String := []
  block : Nat := 0

/-- A change that is not allowed is a failure. -/
def allowed {α : Type} : Option α → Except Failure α
  | some x => .ok x
  | none => .error .malformed

/-- A key and a value. -/
def readAssignment (state : State) (s : List Char) : Except Failure (State × List Char) := do
  let (key, rest) ← readKey (s.length + 1) s
  match rest with
  | '=' :: rest =>
      let (value, rest) ← readValue (2 * rest.length + 2) depthLimit (skipBlanks rest)
      let members ← allowed (state.members.within (·.assign state.block value key) state.header)
      pure ({ state with members := members }, rest)
  | _ => .error .malformed

/-- The tables with a change at the last name of a path. -/
def changeAt (change : String → Members → Option Members) (path : List String)
    (members : Members) : Option Members :=
  match path.getLast? with
  | none => none
  | some name => members.within (change name) path.dropLast

/-- The header of a table behind its first bracket. -/
def readHeader (state : State) (s : List Char) : Except Failure (State × List Char) :=
  match s with
  | '[' :: rest => do
      let (path, rest) ← readKey (rest.length + 1) (skipBlanks rest)
      match rest with
      | ']' :: ']' :: rest =>
          let members ← allowed (changeAt Members.openItem path state.members)
          pure (⟨members, path, state.block + 1⟩, rest)
      | _ => .error .malformed
  | _ => do
      let (path, rest) ← readKey (s.length + 1) (skipBlanks s)
      match rest with
      | ']' :: rest =>
          let members ← allowed (changeAt Members.openTable path state.members)
          pure (⟨members, path, state.block + 1⟩, rest)
      | _ => .error .malformed

/-- What a line begins with. -/
def readStatement (state : State) (s : List Char) : Step State :=
  match s with
  | '[' :: rest => readHeader state rest
  | c :: _ =>
      if c = '#' || c = '\n' then .ok (state, s)
      else if isKeyChar c || c = '"' || c = '\'' then readAssignment state s
      else .error .malformed
  | [] => .ok (state, s)

/-- All lines of a text. -/
def readStatements : (fuel : Nat) → State → List Char → Except Failure State
  | 0, _, _ => .error .malformed
  | fuel + 1, state, s => do
      let (state, rest) ← readStatement state (skipBlanks s)
      match ← skipComment (skipBlanks rest) with
      | [] => pure state
      | '\n' :: rest => readStatements fuel state rest
      | _ => .error .malformed

/-- A text with every pair of a carriage return and a line feed replaced by a line feed. -/
def joinLineEnds : List Char → List Char
  | [] => []
  | '\r' :: '\n' :: rest => '\n' :: joinLineEnds rest
  | c :: rest => c :: joinLineEnds rest

/-- The members of the outermost table of a text. -/
def parse (s : List Char) : Except Failure (List (String × Json)) :=
  let s := joinLineEnds s
  (readStatements (s.length + 1) {} s).map fun state => membersJson state.members

end SourceChunks.Toml
