import SourceChunks.Number.Binary64
import SourceChunks.Number.Numeral

/-!
# Timestamps

A timestamp is a date of the Gregorian calendar and a time of day, with or without
an offset from universal time.  It is read from the usual text forms and from a
count of seconds since the beginning of 1970, and written in one form.  The year zero
can be read, but it belongs to no era, so that no timestamp that is kept lies in it.
-/

namespace SourceChunks

/-- A date and a time of day. -/
structure Timestamp where
  year : Nat
  month : Nat
  day : Nat
  hour : Nat
  minute : Nat
  second : Nat
  microsecond : Nat
  /-- Minutes ahead of universal time, if the zone is known. -/
  offset : Option Int
  deriving Repr, DecidableEq

namespace Timestamp

/-! ## The calendar -/

/-- Whether a year has a twenty-ninth of February. -/
def isLeapYear (year : Nat) : Bool :=
  (year % 4 = 0 && year % 100 != 0) || year % 400 = 0

/-- The number of days of a month. -/
def daysInMonth (year month : Nat) : Nat :=
  if month = 2 then (if isLeapYear year then 29 else 28)
  else if [4, 6, 9, 11].contains month then 30
  else 31

/-- Whether every field lies in its range. -/
def isValid (t : Timestamp) : Bool :=
  t.year ≤ 9999 && 1 ≤ t.month && t.month ≤ 12 && 1 ≤ t.day &&
    t.day ≤ daysInMonth t.year t.month && t.hour ≤ 23 && t.minute ≤ 59 && t.second ≤ 59 &&
    t.microsecond ≤ 999999 && t.offset.all fun minutes => minutes.natAbs < 1440

/-- Whether the year is one of the common era. -/
def hasEra (t : Timestamp) : Bool :=
  1 ≤ t.year

/-- The year, month and day that lie a number of days after the first of March of
the year 400 before the year zero; the year is at least zero for all days from the year
zero on. -/
def dateOfDays (days : Nat) : Nat × Nat × Nat :=
  let era := days / 146097
  let dayOfEra := days % 146097
  let yearOfEra := (dayOfEra - dayOfEra / 1460 + dayOfEra / 36524 - dayOfEra / 146096) / 365
  let dayOfYear := dayOfEra - (365 * yearOfEra + yearOfEra / 4 - yearOfEra / 100)
  let shifted := (5 * dayOfYear + 2) / 153
  let day := dayOfYear - (153 * shifted + 2) / 5 + 1
  let month := if shifted < 10 then shifted + 3 else shifted - 9
  (era * 400 + yearOfEra + (if month ≤ 2 then 1 else 0) - 400, month, day)

/-- The number of days from the first of March of the year 400 before the year zero to
the beginning of 1970. -/
def epochDays : Nat := 719468 + 146097

/-- The number of days from the beginning of the year zero to the beginning of 1970. -/
def yearZeroDays : Int := 719528

/-- The timestamp, in universal time, of a count of microseconds since the beginning of
1970; none outside the years 0 to 9999. -/
def ofMicroseconds? (microseconds : Int) : Option Timestamp :=
  let seconds := Int.fdiv microseconds 1000000
  let days := Int.fdiv seconds 86400
  let rest := (Int.fmod seconds 86400).toNat
  if days < -yearZeroDays then none
  else
    let (year, month, day) := dateOfDays (days + epochDays).toNat
    let t : Timestamp :=
      ⟨year, month, day, rest / 3600, rest / 60 % 60, rest % 60,
        (Int.fmod microseconds 1000000).toNat, some 0⟩
    if t.isValid then some t else none

/-- The magnitude above which a count is taken to be in milliseconds. -/
def secondsLimit : Nat := 20000000000

/-- The microseconds in the unit of a count, by whether it is large. -/
def unit (isLarge : Bool) : Nat :=
  if isLarge then 1000 else 1000000

/-- The timestamp of a count of seconds, or of milliseconds if it is large. -/
def ofCount? (count : Int) : Option Timestamp :=
  ofMicroseconds? (count * unit (count.natAbs > secondsLimit))

/-- The timestamp of a count with a fraction, to the nearest microsecond.  The fraction
and its microseconds are themselves numbers with a binary fraction. -/
def ofReal? (count : Binary64) : Option Timestamp := do
  let unit := unit (count.exceeds secondsLimit)
  let whole ← count.floor?
  ofMicroseconds? (whole * unit + (count.fraction.times unit).roundedMagnitude)

/-! ## Reading -/

/-- A number of exactly `count` digits, and the text behind it. -/
def readDigits? : (count : Nat) → (value : Nat) → List Char → Option (Nat × List Char)
  | 0, value, s => some (value, s)
  | count + 1, value, c :: rest =>
      if c.isDigit then readDigits? count (10 * value + (c.toNat - 48)) rest else none
  | _ + 1, _, [] => none

/-- A date, and the text behind it. -/
def readDate? (s : List Char) : Option ((Nat × Nat × Nat) × List Char) := do
  let (year, s) ← readDigits? 4 0 s
  let '-' :: s := s | none
  let (month, s) ← readDigits? 2 0 s
  let '-' :: s := s | none
  let (day, s) ← readDigits? 2 0 s
  pure ((year, month, day), s)

/-- The microseconds of the digits behind the seconds; digits after the sixth do
not count. -/
def microsecondsOf (digits : List Char) : Nat :=
  Nat.ofDigitChars 10 ((digits ++ List.replicate 6 '0').take 6) 0

/-- A time of day with or without seconds, and the text behind it. -/
def readTime? (s : List Char) : Option ((Nat × Nat × Nat × Nat) × List Char) := do
  let (hour, s) ← readDigits? 2 0 s
  let ':' :: s := s | none
  let (minute, s) ← readDigits? 2 0 s
  match s with
  | ':' :: s =>
      let (second, s) ← readDigits? 2 0 s
      match s with
      | c :: rest =>
          if c = '.' || c = ',' then
            let digits := rest.takeWhile Char.isDigit
            if digits.isEmpty then none
            else pure ((hour, minute, second, microsecondsOf digits), rest.dropWhile Char.isDigit)
          else pure ((hour, minute, second, 0), s)
      | [] => pure ((hour, minute, second, 0), s)
  | _ => pure ((hour, minute, 0, 0), s)

/-- The zone at the end of a timestamp, if there is one. -/
def readOffset? (s : List Char) : Option (Option Int) :=
  match s with
  | [] => some none
  | c :: rest =>
      if c = 'Z' || c = 'z' then (if rest.isEmpty then some (some 0) else none)
      else if c = '+' || c = '-' || c = '\u2212' then do
        let (hours, rest) ← readDigits? 2 0 rest
        let rest := if rest.head? = some ':' then rest.drop 1 else rest
        let (minutes, rest) ← readDigits? 2 0 rest
        if !rest.isEmpty || minutes > 59 then none
        else
          let total : Int := hours * 60 + minutes
          pure (some (if c = '+' then total else -total))
      else none

/-- A date with or without a time of day. -/
def readCalendar? (s : List Char) : Option Timestamp := do
  let ((year, month, day), s) ← readDate? s
  let t ← match s with
    | [] => some (⟨year, month, day, 0, 0, 0, 0, none⟩ : Timestamp)
    | c :: s =>
        if c = 'T' || c = 't' || c = ' ' || c = '_' then do
          let ((hour, minute, second, microsecond), s) ← readTime? s
          let offset ← readOffset? s
          pure ⟨year, month, day, hour, minute, second, microsecond, offset⟩
        else none
  if t.isValid then some t else none

/-- The exponent at the end of a number; a text that is empty is the exponent zero. -/
def readExponent? (s : List Char) : Option Int :=
  match s with
  | [] => some 0
  | c :: rest =>
      if c = 'e' || c = 'E' then
        let (negative, digits) := Numeral.splitSign rest
        if digits.isEmpty || !digits.all Char.isDigit then none
        else some (Numeral.signed negative (Nat.ofDigitChars 10 digits 0))
      else none

/-- A count of seconds written in digits.  One with a point may have digits on either
side of it, and an exponent. -/
def readCount? (s : List Char) : Option Timestamp :=
  let (negative, rest) := Numeral.splitSign s
  let whole := rest.takeWhile Char.isDigit
  match rest.dropWhile Char.isDigit with
  | [] =>
      if whole.isEmpty then none
      else ofCount? (Numeral.signed negative (Nat.ofDigitChars 10 whole 0))
  | '.' :: rest => do
      let digits := rest.takeWhile Char.isDigit
      let exponent ← readExponent? (rest.dropWhile Char.isDigit)
      if whole.isEmpty && digits.isEmpty then none
      else
        ofReal? (Binary64.ofDecimal negative (Nat.ofDigitChars 10 (whole ++ digits) 0)
          (exponent - digits.length))
  | _ => none

/-- The timestamp of a text. -/
def ofText? (s : String) : Option Timestamp :=
  (readCalendar? s.toList).or (readCount? s.toList)

/-! ## Writing -/

/-- A number with zeros in front up to a width. -/
def padded (width n : Nat) : String :=
  let digits := Nat.toDigits 10 n
  String.ofList (List.replicate (width - digits.length) '0' ++ digits)

/-- The date and the time of day, with a fraction if it is not zero. -/
def localText (t : Timestamp) : String :=
  padded 4 t.year ++ "-" ++ padded 2 t.month ++ "-" ++ padded 2 t.day ++ "T" ++
    padded 2 t.hour ++ ":" ++ padded 2 t.minute ++ ":" ++ padded 2 t.second ++
    (if t.microsecond = 0 then "" else "." ++ padded 6 t.microsecond)

/-- A zone as a sign, hours and minutes. -/
def offsetText (minutes : Int) : String :=
  (if minutes < 0 then "-" else "+") ++ padded 2 (minutes.natAbs / 60) ++ ":" ++
    padded 2 (minutes.natAbs % 60)

/-- The form of a timestamp with its zone in digits. -/
def isoText (t : Timestamp) : String :=
  t.localText ++ (t.offset.map offsetText).getD ""

/-- The form of a timestamp in documents, where universal time is a letter. -/
def text (t : Timestamp) : String :=
  if t.offset = some 0 then t.localText ++ "Z" else t.isoText

/-- The form of a timestamp in file names, which shows no zone of its own. -/
def fileText (t : Timestamp) : String :=
  toString t.year ++ "-" ++ padded 2 t.month ++ "-" ++ padded 2 t.day ++ "T" ++
    padded 2 t.hour ++ "-" ++ padded 2 t.minute ++ "-" ++ padded 2 t.second ++ "-" ++
    padded 6 t.microsecond ++ "Z"

end Timestamp

end SourceChunks
