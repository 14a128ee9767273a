/-!
# Numbers with a binary fraction

The numbers of the 64-bit binary format of IEEE 754, held exactly as a sign, a
significand and a power of two, with the two infinities and the value that is
not a number.  A decimal numeral denotes the nearest of them, and of two that are
equally near the one with an even significand.
-/

namespace SourceChunks

/-- A number of the binary64 format. -/
inductive Binary64 where
  /-- The significand times a power of two, with a sign. -/
  | finite (negative : Bool) (significand : Nat) (exponent : Int)
  /-- An infinity. -/
  | infinite (negative : Bool)
  /-- Not a number. -/
  | nan
  deriving Repr, DecidableEq

namespace Binary64

/-- The least exponent of the format. -/
def minExponent : Int := -1074

/-- The greatest exponent of the format. -/
def maxExponent : Int := 971

/-- The quotient of two numbers, rounded to the nearest integer, to the even one
of two that are equally near. -/
def roundQuotient (numerator denominator : Nat) : Nat :=
  let q := numerator / denominator
  let twice := 2 * (numerator % denominator)
  if twice < denominator then q
  else if twice > denominator then q + 1
  else if q % 2 = 0 then q else q + 1

/-- A quotient divided by a power of two, as numerator and denominator. -/
def scaled (numerator denominator : Nat) (exponent : Int) : Nat × Nat :=
  if exponent < 0 then (numerator * Nat.pow 2 (-exponent).toNat, denominator)
  else (numerator, denominator * Nat.pow 2 exponent.toNat)

/-- The exponent at which a positive quotient has a significand of fifty-three
bits, or the least one. -/
def exponentFor (numerator denominator : Nat) : Int :=
  let guess : Int := (numerator.log2 : Int) - denominator.log2 - 52
  let (n, d) := scaled numerator denominator guess
  max minExponent (if n < d * Nat.pow 2 52 then guess - 1 else guess)

/-- The number nearest to a quotient. -/
def ofQuotient (negative : Bool) (numerator denominator : Nat) : Binary64 :=
  if numerator = 0 then finite negative 0 minExponent
  else
    let exponent := exponentFor numerator denominator
    let (n, d) := scaled numerator denominator exponent
    let m := roundQuotient n d
    let (m, exponent) := if m = Nat.pow 2 53 then (Nat.pow 2 52, exponent + 1) else (m, exponent)
    if exponent > maxExponent then infinite negative else finite negative m exponent

/-- The number nearest to `digits * 10 ^ exponent`.  Numerals far beyond the
format on either side are decided by their size alone. -/
def ofDecimal (negative : Bool) (digits : Nat) (exponent : Int) : Binary64 :=
  let size : Int := (Nat.toDigits 10 digits).length + exponent
  if digits = 0 || size < -400 then finite negative 0 minExponent
  else if size > 400 then infinite negative
  else if exponent < 0 then ofQuotient negative digits (Nat.pow 10 (-exponent).toNat)
  else ofQuotient negative (digits * Nat.pow 10 exponent.toNat) 1

/-- The magnitude of a number as numerator and denominator. -/
def magnitude (significand : Nat) (exponent : Int) : Nat × Nat :=
  if exponent < 0 then (significand, Nat.pow 2 (-exponent).toNat)
  else (significand * Nat.pow 2 exponent.toNat, 1)

/-- The integer part of a number, the fraction cut off; none for the infinities
and the value that is not a number. -/
def truncate? : Binary64 → Option Int
  | finite negative significand exponent =>
      let (n, d) := magnitude significand exponent
      some (if negative then -((n / d : Nat) : Int) else ((n / d : Nat) : Int))
  | _ => none

/-- The whole number at or below a number; none for the infinities and the value that
is not a number. -/
def floor? : Binary64 → Option Int
  | finite negative significand exponent =>
      let (n, d) := magnitude significand exponent
      some (if negative then -(((n + d - 1) / d : Nat) : Int) else ((n / d : Nat) : Int))
  | _ => none

/-- The number nearest to the distance of a number from the whole number at or below
it. -/
def fraction : Binary64 → Binary64
  | finite negative significand exponent =>
      let (n, d) := magnitude significand exponent
      let above := n % d
      ofQuotient false (if negative && above != 0 then d - above else above) d
  | x => x

/-- The number nearest to a whole multiple of a number. -/
def times (factor : Nat) : Binary64 → Binary64
  | finite negative significand exponent =>
      let (n, d) := magnitude significand exponent
      ofQuotient negative (factor * n) d
  | x => x

/-- The whole number nearest to the magnitude of a number, the greater one of two that
are equally near. -/
def roundedMagnitude : Binary64 → Nat
  | finite _ significand exponent =>
      let (n, d) := magnitude significand exponent
      (2 * n + d) / (2 * d)
  | _ => 0

/-- Whether the magnitude of a number is greater than a whole number. -/
def exceeds (bound : Nat) : Binary64 → Bool
  | finite _ significand exponent =>
      let (n, d) := magnitude significand exponent
      bound * d < n
  | infinite _ => true
  | nan => false

/-- Whether a number is one of the infinities. -/
def isInfinite : Binary64 → Bool
  | infinite _ => true
  | _ => false

/-- Whether a number has no fraction. -/
def isIntegral : Binary64 → Bool
  | finite _ significand exponent =>
      let (n, d) := magnitude significand exponent
      n % d = 0
  | _ => false

/-- Whether a number is a zero of either sign. -/
def isZero : Binary64 → Bool
  | finite _ significand _ => significand = 0
  | _ => false

end Binary64

end SourceChunks
