import SourceChunks.Document.Timestamp
import SourceChunks.Text.Quoted

/-!
# Times in the forms of ISO 8601

A date is a day of a month or of a week, in the basic form or in the extended one with
hyphens.  A time of day may follow behind any one character; it has hours, minutes and
seconds, the later of which may be absent, and then a fraction and a zone.  The zone has
to be right, but what is read is the time on the clock.
-/

namespace SourceChunks

/-- Why a text is no time. -/
inductive IsoFailure where
  /-- It has not the form of a time. -/
  | malformed (text : String)
  /-- The year is out of range. -/
  | year (value : Nat)
  /-- The month is out of range. -/
  | month
  /-- The month has no such day. -/
  | day
  /-- The hour is out of range. -/
  | hour
  /-- The minute is out of range. -/
  | minute
  /-- The second is out of range. -/
  | second
  /-- The zone is a day or more from universal time. -/
  | offset (microseconds : Int)
  deriving Repr, DecidableEq

/-- The wording of a span of time: its days, seconds and microseconds as far as they are
not zero, of which only the days can be negative. -/
def spanWording (microseconds : Int) : String :=
  let seconds := Int.fdiv microseconds 1000000
  let parts := [("days", Int.fdiv seconds 86400), ("seconds", Int.fmod seconds 86400),
    ("microseconds", Int.fmod microseconds 1000000)]
  let shown := (parts.filter (·.2 != 0)).map fun (name, n) => name ++ "=" ++ toString n
  "datetime.timedelta(" ++ (if shown.isEmpty then "0" else ", ".intercalate shown) ++ ")"

/-- The wording of a failure. -/
def IsoFailure.message : IsoFailure → String
  | malformed text => "Invalid isoformat string: " ++ Text.quoted text
  | year value => s!"year {value} is out of range"
  | month => "month must be in 1..12"
  | day => "day is out of range for month"
  | hour => "hour must be in 0..23"
  | minute => "minute must be in 0..59"
  | second => "second must be in 0..59"
  | offset microseconds =>
      "offset must be a timedelta strictly between -timedelta(hours=24) and " ++
        "timedelta(hours=24), not " ++ spanWording microseconds ++ "."

namespace IsoTime

/-! ## Dates -/

/-- How many characters the date at the beginning of a text takes.  Where a day of a week
and a time of day could be meant, the digits that follow decide: those of a time of day
come in pairs, and a hyphen before two digits stands in front of a time of day. -/
def dateLength? (s : List Char) : Option Nat :=
  let isDigitAt (n : Nat) : Bool := (s[n]?).any Char.isDigit
  if s.length < 7 then none
  else if s.length = 7 then some 7
  else if s[4]? = some '-' then
    if s[5]? != some 'W' then some 10
    else if s[8]? != some '-' then some 8
    else if s.length = 9 then none
    else some (if isDigitAt 10 then 8 else 10)
  else if s[4]? = some 'W' then
    let digits := 7 + ((s.drop 7).takeWhile Char.isDigit).length
    some (if digits < 9 then digits else if digits % 2 = 0 then 7 else 8)
  else some 8

/-- The number of days from the beginning of the year zero to that of another one. -/
def daysBefore (year : Nat) : Nat :=
  365 * year + (year + 3) / 4 - (year + 99) / 100 + (year + 399) / 400

/-- The day of the week on which a year begins, from Monday on; the year zero begins on
a Saturday. -/
def firstWeekday (year : Nat) : Nat :=
  (daysBefore year + 5) % 7

/-- The number of weeks of a year: one more than usual if it begins on a Thursday, or is
a leap year and begins on a Wednesday. -/
def weeksIn (year : Nat) : Nat :=
  let first := firstWeekday year
  if first = 3 || (first = 2 && Timestamp.isLeapYear year) then 53 else 52

/-- The date of a day of a week.  The first week of a year is the one with its first
Thursday.  The weeks of the year zero lie in no month of the common era. -/
def dateOfWeek? (year week day : Nat) : Option (Nat × Nat × Nat) :=
  if week = 0 || week > weeksIn year || day = 0 || day > 7 then none
  else if year = 0 then some (1, 0, 0)
  else
    let first := firstWeekday year
    let monday := daysBefore year + (if first > 3 then 7 else 0) - first
    let days := monday + 7 * (week - 1) + (day - 1)
    some (Timestamp.dateOfDays ((days : Int) - Timestamp.yearZeroDays + Timestamp.epochDays).toNat)

/-- What is left of a text behind a hyphen, if one is wanted. -/
def dropHyphen? (isWanted : Bool) (s : List Char) : Option (List Char) :=
  if !isWanted then some s
  else
    match s with
    | '-' :: rest => some rest
    | _ => none

/-- The year, month and day of a date. -/
def readDate? (s : List Char) : Option (Nat × Nat × Nat) := do
  let (year, s) ← Timestamp.readDigits? 4 0 s
  let isExtended := s.head? = some '-'
  let s := if isExtended then s.drop 1 else s
  match s with
  | 'W' :: s =>
      let (week, s) ← Timestamp.readDigits? 2 0 s
      if s.isEmpty then dateOfWeek? year week 1
      else
        let (day, _) ← Timestamp.readDigits? 1 0 (← dropHyphen? isExtended s)
        dateOfWeek? year week day
  | s =>
      let (month, s) ← Timestamp.readDigits? 2 0 s
      let (day, _) ← Timestamp.readDigits? 2 0 (← dropHyphen? isExtended s)
      pure (year, month, day)

/-! ## Times of day -/

/-- What a clock shows. -/
structure Clock where
  hour : Nat := 0
  minute : Nat := 0
  second : Nat := 0
  microsecond : Nat := 0
  deriving Repr, DecidableEq

/-- Hours, minutes and seconds as far as they were read. -/
def Clock.ofParts (parts : List Nat) (microsecond : Nat) : Clock :=
  ⟨parts.getD 0 0, parts.getD 1 0, parts.getD 2 0, microsecond⟩

/-- Whether a text ends where what follows is; the null character ends it too. -/
def ends (next : Option Char) : Bool :=
  next.all (· == Char.ofNat 0)

/-- The fraction of a second, and whether the text ends behind it.  Digits after the sixth
do not count. -/
def readFraction? (parts : List Nat) (s : List Char) (next : Option Char) :
    Option (Clock × Bool) :=
  if (s.take 6).all Char.isDigit then
    some (.ofParts parts (Timestamp.microsecondsOf (s.take 6)),
      ends ((s.dropWhile Char.isDigit).head?.or next))
  else none

/-- The parts of a time of day that are left, of which there are `count`, before the
character `next`; `parts` holds those that were read, and `isExtended` says whether
colons stand between them.  With the clock comes whether the text ends behind it. -/
def readParts? (next : Option Char) :
    (count : Nat) → (parts : List Nat) → (isExtended : Bool) → List Char → Option (Clock × Bool)
  | 0, parts, _, s => readFraction? parts s next
  | count + 1, parts, isExtended, s => do
      let (part, s) ← Timestamp.readDigits? 2 0 s
      let isExtended := if parts.isEmpty then s.head? = some ':' else isExtended
      let parts := parts ++ [part]
      match s with
      | [] => pure (.ofParts parts 0, ends next)
      | c :: rest =>
          if rest.isEmpty && c.toNat < 128 then pure (.ofParts parts 0, ends (some c))
          else if isExtended && c = ':' then readParts? next count parts isExtended rest
          else if c = '.' || c = ',' then readFraction? parts rest next
          else if isExtended then none
          else readParts? next count parts isExtended s

/-- A time of day before the character `next`, and whether the text ends behind it. -/
def readClock? (s : List Char) (next : Option Char) : Option (Clock × Bool) :=
  readParts? next 3 [] true s

/-- The distance of a clock from midnight in microseconds. -/
def Clock.microseconds (c : Clock) : Nat :=
  ((c.hour * 60 + c.minute) * 60 + c.second) * 1000000 + c.microsecond

/-- The microseconds of a zone ahead of universal time, behind its sign.  A zone of less
than a second is universal time. -/
def readZone? (sign : Char) (s : List Char) : Option Int :=
  match readClock? s none with
  | some (clock, true) =>
      let distance : Int := if clock.microseconds < 1000000 then 0 else clock.microseconds
      some (if sign = '-' then -distance else distance)
  | _ => none

/-- A time of day with the microseconds of its zone. -/
def readTime? (s : List Char) : Option (Clock × Int) :=
  let isZone (c : Char) : Bool := c = '+' || c = '-' || c = 'Z'
  let zone := s.dropWhile (!isZone ·)
  match readClock? (s.takeWhile (!isZone ·)) zone.head?, zone with
  | some (clock, isEnd), [] => if isEnd then some (clock, 0) else none
  | some (clock, _), 'Z' :: rest => if ends rest.head? then some (clock, 0) else none
  | some (clock, _), sign :: rest => (readZone? sign rest).map (clock, ·)
  | none, _ => none

/-! ## Both -/

/-- A date and time of day whose parts may be out of range, with the zone. -/
def read? (s : List Char) : Option ((Nat × Nat × Nat) × Clock × Int) := do
  let length ← dateLength? s
  let date ← readDate? (s.take length)
  match s.drop length with
  | [] => pure (date, {}, 0)
  | _ :: rest => pure (date, ← readTime? rest)

/-- The timestamp with the given fields, or the first one that is out of range. -/
def check (date : Nat × Nat × Nat) (clock : Clock) (zone : Int) : Except IsoFailure Timestamp :=
  let (year, month, day) := date
  if zone.natAbs ≥ 86400 * 1000000 then .error (.offset zone)
  else if year = 0 || year > 9999 then .error (.year year)
  else if month = 0 || month > 12 then .error .month
  else if day = 0 || day > Timestamp.daysInMonth year month then .error .day
  else if clock.hour > 23 then .error .hour
  else if clock.minute > 59 then .error .minute
  else if clock.second > 59 then .error .second
  else .ok ⟨year, month, day, clock.hour, clock.minute, clock.second, clock.microsecond, none⟩

end IsoTime

/-- The time on the clock that a text in a form of ISO 8601 shows. -/
def Timestamp.ofIso (s : String) : Except IsoFailure Timestamp :=
  match IsoTime.read? s.toList with
  | some (date, clock, zone) => IsoTime.check date clock zone
  | none => .error (.malformed s)

end SourceChunks
