import SourceChunks.Json.Value
import SourceChunks.Number.Numeral
import SourceChunks.Text.Hex
import SourceChunks.Source.Position

/-!
# Reading JSON

The reader takes a text apart from left to right.  Each part of it gives back what
it read and the text that is left; a fault carries the text that was left where
it arose, which fixes its place.  Beyond the standard, the three values that are
not finite numbers can be read, and of several members with one name the last
value counts.
-/

namespace SourceChunks.Json

/-- Why a text is not JSON. -/
inductive Cause where
  | byteOrderMark
  | value
  | name
  | colon
  | comma
  | extraData
  | unterminatedString
  | controlCharacter
  | escape
  | unicodeEscape
  /-- A whole number has more digits than can be read. -/
  | tooManyDigits (count : Nat)
  /-- An array lies within more values than can be read. -/
  | deepArray
  /-- An object lies within more values than can be read. -/
  | deepObject
  deriving Repr, DecidableEq

/-- A cause, and the offset at which it arose. -/
structure Fault where
  /-- What is wrong. -/
  cause : Cause
  /-- The offset of the fault. -/
  offset : Nat
  /-- The line and column of the fault. -/
  point : Point
  deriving Repr, DecidableEq

/-- What was expected or is wrong. -/
def Cause.wording : Cause → String
  | byteOrderMark => "Unexpected UTF-8 BOM (decode using utf-8-sig)"
  | value => "Expecting value"
  | name => "Expecting property name enclosed in double quotes"
  | colon => "Expecting ':' delimiter"
  | comma => "Expecting ',' delimiter"
  | extraData => "Extra data"
  | unterminatedString => "Unterminated string starting at"
  | controlCharacter => "Invalid control character at"
  | escape => "Invalid \\escape"
  | unicodeEscape => "Invalid \\uXXXX escape"
  | tooManyDigits count =>
      "Exceeds the limit (4300 digits) for integer string conversion: value has " ++
        toString count ++ " digits; use sys.set_int_max_str_digits() to increase the limit"
  | deepArray =>
      "maximum recursion depth exceeded while decoding a JSON array from a unicode string"
  | deepObject =>
      "maximum recursion depth exceeded while decoding a JSON object from a unicode string"

/-- Whether a fault is that values are nested too deeply. -/
def Fault.isDepth (fault : Fault) : Bool :=
  fault.cause = .deepArray || fault.cause = .deepObject

/-- Whether a fault is a limit of the reader and not in the form of the text. -/
def Fault.isLimit (fault : Fault) : Bool :=
  match fault.cause with
  | .tooManyDigits _ => true
  | _ => fault.isDepth

/-- The wording of a fault with its place, which a limit does not have. -/
def Fault.message (fault : Fault) : String :=
  if fault.isLimit then fault.cause.wording
  else
    s!"{fault.cause.wording}: line {fault.point.line} column {fault.point.column} (char {fault.offset})"

/-- What a part of the reader gives: a value and the text that is left, or a cause
and the text that was left where it arose. -/
abbrev Step (α : Type) := Except (Cause × List Char) (α × List Char)

/-- The white space of JSON. -/
def isSpace (c : Char) : Bool :=
  c == ' ' || c == '\n' || c == '\r' || c == '\t'

/-- A text without leading white space. -/
def skipSpace (s : List Char) : List Char :=
  s.dropWhile isSpace

/-! ## Strings -/

/-- The character that a backslash and a letter stand for. -/
def shortEscape? (c : Char) : Option Char :=
  match c with
  | '"' => some '"'
  | '\\' => some '\\'
  | '/' => some '/'
  | 'b' => some (Char.ofNat 8)
  | 'f' => some (Char.ofNat 12)
  | 'n' => some '\n'
  | 'r' => some '\r'
  | 't' => some '\t'
  | _ => none

/-- The value of four hexadecimal digits before at least one more character. -/
def readHex? (s : List Char) : Option (Nat × List Char) :=
  match s with
  | a :: b :: c :: d :: next :: rest => do
      let a ← Text.hexValue? a
      let b ← Text.hexValue? b
      let c ← Text.hexValue? c
      let d ← Text.hexValue? d
      pure (((a * 16 + b) * 16 + c) * 16 + d, next :: rest)
  | _ => none

/-- Whether a code unit is the first half of a pair. -/
def isHighHalf (n : Nat) : Bool :=
  0xD800 ≤ n && n ≤ 0xDBFF

/-- Whether a code unit is the second half of a pair. -/
def isLowHalf (n : Nat) : Bool :=
  0xDC00 ≤ n && n ≤ 0xDFFF

/-- The character of a code unit; half a pair is no character and is replaced. -/
def unitChar (n : Nat) : Char :=
  if isHighHalf n || isLowHalf n then Char.ofNat 0xFFFD else Char.ofNat n

/-- The rest of an escape behind its backslash and `u`, which stand at `place`. -/
def readUnicodeEscape (place s : List Char) : Step Char :=
  match readHex? s with
  | none => .error (.unicodeEscape, place)
  | some (high, rest) =>
      match rest with
      | '\\' :: 'u' :: second =>
          if isHighHalf high && !(rest.drop 6).isEmpty then
            match readHex? second with
            | none => .error (.unicodeEscape, 'u' :: second)
            | some (low, rest') =>
                if isLowHalf low then
                  .ok (Char.ofNat (0x10000 + (high - 0xD800) * 0x400 + (low - 0xDC00)), rest')
                else .ok (unitChar high, rest)
          else .ok (unitChar high, rest)
      | _ => .ok (unitChar high, rest)

/-- An escape behind its backslash. -/
def readEscape (start s : List Char) : Step Char :=
  match s with
  | [] => .error (.unterminatedString, start)
  | 'u' :: rest => readUnicodeEscape s rest
  | c :: rest =>
      match shortEscape? c with
      | some x => .ok (x, rest)
      | none => .error (.escape, '\\' :: s)

/-- A string behind its opening quote, which stands at `start`; `done` holds the
characters that were read, the latest first.  The fuel suffices if it is greater than the
length of the text. -/
def readString (start : List Char) : (fuel : Nat) → (done : List Char) → List Char → Step String
  | 0, _, _ => .error (.unterminatedString, start)
  | _ + 1, _, [] => .error (.unterminatedString, start)
  | fuel + 1, done, c :: rest =>
      if c = '"' then .ok (String.ofList done.reverse, rest)
      else if c = '\\' then
        match readEscape start rest with
        | .error e => .error e
        | .ok (x, rest) => readString start fuel (x :: done) rest
      else if c.toNat < 32 then .error (.controlCharacter, c :: rest)
      else readString start fuel (c :: done) rest

/-! ## Numbers -/

/-- The digits of the whole part: a zero alone, or any that do not begin with one. -/
def readWhole (s : List Char) : List Char × List Char :=
  match s with
  | '0' :: rest => (['0'], rest)
  | _ => s.span Char.isDigit

/-- The digits behind a point; none if there is no point with a digit behind it. -/
def readFraction (s : List Char) : List Char × List Char :=
  match s with
  | '.' :: rest =>
      if (rest.takeWhile Char.isDigit).isEmpty then ([], s) else rest.span Char.isDigit
  | _ => ([], s)

/-- The sign and digits of an exponent. -/
def readSignedDigits (s : List Char) : Bool × List Char × List Char :=
  match s with
  | '-' :: rest => (true, rest.span Char.isDigit)
  | '+' :: rest => (false, rest.span Char.isDigit)
  | _ => (false, s.span Char.isDigit)

/-- An exponent; none if there are no digits in it. -/
def readExponent (s : List Char) : Option Int × List Char :=
  match s with
  | c :: rest =>
      if c = 'e' || c = 'E' then
        let (negative, digits, rest') := readSignedDigits rest
        if digits.isEmpty then (none, s)
        else
          let n : Int := Nat.ofDigitChars 10 digits 0
          (some (if negative then -n else n), rest')
      else (none, s)
  | [] => (none, s)

/-- A number behind its sign; `start` is the text from the sign on. -/
def readNumber (start : List Char) (negative : Bool) (s : List Char) : Step Json :=
  let (whole, rest) := readWhole s
  if whole.isEmpty then .error (.value, start)
  else
    let (fraction, rest) := readFraction rest
    let (exponent, rest) := readExponent rest
    if fraction.isEmpty && exponent.isNone then
      if whole.length > Numeral.digitLimit then .error (.tooManyDigits whole.length, start)
      else
        let n : Int := Nat.ofDigitChars 10 whole 0
        .ok (int (if negative then -n else n), rest)
    else
      .ok (real (Binary64.ofDecimal negative (Nat.ofDigitChars 10 (whole ++ fraction) 0)
        (exponent.getD 0 - fraction.length)), rest)

/-- What is left behind a given word; none if the text does not begin with it. -/
def dropWord? (word s : List Char) : Option (List Char) :=
  if word.isPrefixOf s then some (s.drop word.length) else none

/-- The values that are written as words. -/
def wordValues : List (List Char × Json) :=
  [("null".toList, null), ("true".toList, bool true), ("false".toList, bool false),
   ("NaN".toList, real .nan), ("Infinity".toList, real (.infinite false)),
   ("-Infinity".toList, real (.infinite true))]

/-- A word or a number. -/
def readScalar (s : List Char) : Step Json :=
  match wordValues.findSome? fun (word, value) => (dropWord? word s).map fun rest => (value, rest) with
  | some found => .ok found
  | none =>
      match s with
      | '-' :: rest => readNumber s true rest
      | _ => readNumber s false s

/-! ## Values -/

/-- How many arrays and objects can lie within one another. -/
def depthLimit : Nat := 990

mutual

/-- A value, within which `room` more arrays and objects can be nested. -/
def readValue : (fuel room : Nat) → List Char → Step Json
  | 0, _, s => .error (.value, s)
  | fuel + 1, room, s =>
      match s with
      | '"' :: rest =>
          match readString s fuel [] rest with
          | .error e => .error e
          | .ok (text, rest) => .ok (str text, rest)
      | '[' :: rest =>
          if room = 0 then .error (.deepArray, s)
          else
            match skipSpace rest with
            | ']' :: rest => .ok (arr [], rest)
            | rest => readItems fuel (room - 1) [] rest
      | '{' :: rest =>
          if room = 0 then .error (.deepObject, s)
          else
            match skipSpace rest with
            | '}' :: rest => .ok (obj [], rest)
            | rest => readMembers fuel (room - 1) [] rest
      | _ => readScalar s

/-- The items of an array from one on; `done` holds those that were read, the
latest first. -/
def readItems : (fuel room : Nat) → (done : List Json) → List Char → Step Json
  | 0, _, _, s => .error (.value, s)
  | fuel + 1, room, done, s =>
      match readValue fuel room s with
      | .error e => .error e
      | .ok (item, rest) =>
          match skipSpace rest with
          | ']' :: rest => .ok (arr (item :: done).reverse, rest)
          | ',' :: rest => readItems fuel room (item :: done) (skipSpace rest)
          | rest => .error (.comma, rest)

/-- The members of an object from one on; `done` holds those that were read. -/
def readMembers : (fuel room : Nat) → (done : List (String × Json)) → List Char → Step Json
  | 0, _, _, s => .error (.name, s)
  | fuel + 1, room, done, s =>
      match s with
      | '"' :: rest =>
          match readString s fuel [] rest with
          | .error e => .error e
          | .ok (name, rest) =>
              match skipSpace rest with
              | ':' :: rest =>
                  match readValue fuel room (skipSpace rest) with
                  | .error e => .error e
                  | .ok (value, rest) =>
                      let done := setMember name value done
                      match skipSpace rest with
                      | '}' :: rest => .ok (obj done, rest)
                      | ',' :: rest => readMembers fuel room done (skipSpace rest)
                      | rest => .error (.comma, rest)
              | rest => .error (.colon, rest)
      | _ => .error (.name, s)

end

/-- A whole text, apart from the place of a fault. -/
def readText (s : List Char) : Except (Cause × List Char) Json :=
  if s.head? = some (Char.ofNat 0xFEFF) then .error (.byteOrderMark, s)
  else
    match readValue (2 * s.length + 2) depthLimit (skipSpace s) with
    | .error e => .error e
    | .ok (value, rest) =>
        match skipSpace rest with
        | [] => .ok value
        | rest => .error (.extraData, rest)

/-- The value of a text. -/
def parse (s : List Char) : Except Fault Json :=
  match readText s with
  | .ok value => .ok value
  | .error (cause, rest) =>
      let offset := s.length - rest.length
      .error ⟨cause, offset, Point.behind (s.take offset)⟩

end SourceChunks.Json
