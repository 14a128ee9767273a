import SourceChunks.Text.Blank
import SourceChunks.Text.Digit

/-!
# Numerals in text

A whole number in a text may have white space around it, a sign in front, and
single underscores between its digits.  Two forms are read: a strict one with the
ten ASCII digits, in which zeros may stand in front and behind a point, and a
liberal one with the digits of all scripts.  Both read a limited number of digits.
-/

namespace SourceChunks.Numeral

/-- Why a text is no number. -/
inductive Failure where
  /-- It has not the form of a number. -/
  | notANumber
  /-- It has too many digits. -/
  | tooManyDigits (count : Nat)
  deriving Repr, DecidableEq

/-- The largest number of digits that is read. -/
def digitLimit : Nat := 4300

/-- The number that some digits denote. -/
def valueOf (digits : List Nat) : Nat :=
  digits.foldl (fun n d => 10 * n + d) 0

/-- A number with a sign. -/
def signed (negative : Bool) (n : Nat) : Int :=
  if negative then -(n : Int) else n

/-- The sign in front of a text, and what follows it. -/
def splitSign (s : List Char) : Bool × List Char :=
  match s with
  | '-' :: rest => (true, rest)
  | '+' :: rest => (false, rest)
  | _ => (false, s)

/-- A text without the white space around it, where the information separators do
not count as white space. -/
def trim (s : List Char) : List Char :=
  let isSpace (c : Char) : Bool := Text.isBlank c && !(0x1C ≤ c.toNat && c.toNat ≤ 0x1F)
  ((s.dropWhile isSpace).reverse.dropWhile isSpace).reverse

/-! ## The liberal form -/

/-- The digits at the beginning of a text, between which single underscores may stand,
and what follows them; none if an underscore is not between two digits. -/
def leadingDigits? (afterDigit : Bool) : List Char → Option (List Nat × List Char)
  | [] => if afterDigit then some ([], []) else none
  | c :: rest =>
      match Text.digitValue? c with
      | some d => (leadingDigits? true rest).map fun (ds, s) => (d :: ds, s)
      | none =>
          if !afterDigit then none
          else if c = '_' then leadingDigits? false rest
          else some ([], c :: rest)

/-- A number in the liberal form.  That there are too many digits shows before what
follows them is looked at. -/
def liberal (s : List Char) : Except Failure Int :=
  let (negative, rest) := splitSign (trim s)
  match leadingDigits? false rest with
  | none => .error .notANumber
  | some (ds, rest) =>
      if ds.length > digitLimit then .error (.tooManyDigits ds.length)
      else if rest.isEmpty then .ok (signed negative (valueOf ds))
      else .error .notANumber

/-! ## The strict form -/

/-- A number that is written with a sign if it is negative and without further zeros
in front; the sign counts towards the limit. -/
def plain (s : List Char) : Except Failure Int :=
  let negative := s.head? = some '-'
  let body := if negative then s.drop 1 else s
  let digits := body.takeWhile Char.isDigit
  let size := digits.length + (if negative then 1 else 0)
  if digits.isEmpty || (digits.head? = some '0' && digits.length > 1) then .error .notANumber
  else if size > digitLimit then .error (.tooManyDigits size)
  else if digits.length = body.length then
    .ok (signed negative (Nat.ofDigitChars 10 digits 0))
  else .error .notANumber

/-- What is left of a text behind a zero, which was its last character so far, without
further zeros and underscores.  Of a text that ends with them, or in which a point
follows them, the last one stays. -/
def behindZeros? (last : Char) : List Char → Option (List Char)
  | [] => some [last]
  | c :: rest =>
      if c = '0' || c = '_' then behindZeros? c rest
      else if c.isDigit || c = '-' then some (c :: rest)
      else if c = '.' then some (last :: c :: rest)
      else none

/-- A text without the zeros in front that do not count. -/
def dropZeros? : List Char → Option (List Char)
  | [] => none
  | c :: rest =>
      if c = '0' then behindZeros? c rest
      else if c.isDigit || c = '-' then some (c :: rest)
      else none

/-- A text without a point that only zeros follow, of which there is at least one. -/
def dropZeroFraction (s : List Char) : List Char :=
  let fraction := (s.dropWhile (· != '.')).drop 1
  if !fraction.isEmpty && fraction.all (· == '0') then s.takeWhile (· != '.') else s

/-- Whether an underscore stands at the beginning of a text or behind another one, or
at its end. -/
def hasStrayUnderscore (afterOther : Bool) : List Char → Bool
  | [] => !afterOther
  | c :: rest =>
      if c = '_' then !afterOther || hasStrayUnderscore false rest
      else hasStrayUnderscore true rest

/-- A text without underscores, if each of them is between two other characters. -/
def dropUnderscores (s : List Char) : List Char :=
  if hasStrayUnderscore false s then s else s.filter (· != '_')

/-- The digits of a numeral behind its sign, as they are read. -/
def bare? (s : List Char) : Option (List Char) :=
  (dropZeros? s).map fun digits => dropUnderscores (dropZeroFraction digits)

/-- A number in the strict form. -/
def strict (s : List Char) : Except Failure Int :=
  let bare :=
    match trim s with
    | '-' :: rest => (bare? rest).map ('-' :: ·)
    | '+' :: '-' :: _ => none
    | '+' :: rest => bare? rest
    | rest => bare? rest
  match bare with
  | some digits => plain digits
  | none => .error .notANumber

end SourceChunks.Numeral
