import SourceChunks.Number.Binary64

/-!
# The shortest decimal text of a number

A binary64 number is written with the fewest digits that read back as the same
number, and of several such texts with the one nearest to it.
-/

namespace SourceChunks.Binary64

/-- The power of ten of the leading digit of a positive quotient. -/
def leadingPower (numerator denominator : Nat) : Int :=
  let guess : Int := (Nat.toDigits 10 numerator).length - (Nat.toDigits 10 denominator).length
  let (n, d) :=
    if guess < 0 then (numerator * Nat.pow 10 (-guess).toNat, denominator)
    else (numerator, denominator * Nat.pow 10 guess.toNat)
  if n < d then guess - 1 else guess

/-- The decimal neighbours of a positive quotient with `count` digits: the whole
multiples of a power of ten below and above it, the nearer one first. -/
def neighbours (numerator denominator count : Nat) : List (Nat × Int) :=
  let power := leadingPower numerator denominator - (count - 1 : Int)
  let (n, d) :=
    if power < 0 then (numerator * Nat.pow 10 (-power).toNat, denominator)
    else (numerator, denominator * Nat.pow 10 power.toNat)
  let below := n / d
  if n % d = 0 then [(below, power)]
  else if 2 * (n % d) < d || (2 * (n % d) = d && below % 2 = 0) then
    [(below, power), (below + 1, power)]
  else [(below + 1, power), (below, power)]

/-- The digits, as a number, and the power of ten of the shortest text that reads
back as a finite number. -/
def shortest (significand : Nat) (exponent : Int) : Nat × Int :=
  let (n, d) := magnitude significand exponent
  let readsBack (candidate : Nat × Int) : Bool :=
    ofDecimal false candidate.1 candidate.2 = finite false significand exponent
  if significand = 0 then (0, 0)
  else
    (((List.range 17).findSome? fun k => (neighbours n d (k + 1)).find? readsBack).getD
      (significand, 0))

/-- The text of a number: positional while its leading digit stands for a power
of ten from -4 to 15, and with an exponent of at least two digits otherwise. -/
def text : Binary64 → String
  | nan => "nan"
  | infinite negative => if negative then "-inf" else "inf"
  | finite negative significand exponent =>
      let (m, power) := shortest significand exponent
      let digits := Nat.toDigits 10 m
      -- trailing zeros belong to the power of ten
      let zeros := if m = 0 then 0 else (digits.reverse.takeWhile (· == '0')).length
      let digits := digits.take (digits.length - zeros)
      let leading : Int := power + zeros + digits.length - 1
      let body : List Char :=
        if m = 0 then "0.0".toList
        else if -4 ≤ leading && leading < 0 then
          '0' :: '.' :: List.replicate (-leading - 1).toNat '0' ++ digits
        else if 0 ≤ leading && leading < 16 then
          let whole := leading.toNat + 1
          if digits.length ≤ whole then
            digits ++ List.replicate (whole - digits.length) '0' ++ ['.', '0']
          else digits.take whole ++ '.' :: digits.drop whole
        else
          let fraction := digits.drop 1
          let size := Nat.toDigits 10 leading.natAbs
          digits.take 1 ++ (if fraction.isEmpty then [] else '.' :: fraction) ++
            'e' :: (if leading < 0 then '-' else '+') ::
              (if size.length < 2 then '0' :: size else size)
      String.ofList (if negative then '-' :: body else body)

end SourceChunks.Binary64
