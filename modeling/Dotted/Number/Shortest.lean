import Dotted.Number.Binary64

/-!
# The shortest decimal text of a binary64 number

Among the decimals that round to a given number, the one with the fewest digits is written, and of
several with that many digits the one nearest to the number.

* `Binary64.shortest` finds it: for one, two, up to seventeen digits it tests the two neighbours of
  the magnitude on the decimal grid of that many digits.
* `Decimal.text` lays it out, with the point among the digits for moderate exponents and with an
  explicit exponent otherwise.
-/

namespace Dotted

/-- The decimal `digits * 10 ^ exponent`. -/
structure Decimal where
  digits : Nat
  exponent : Int
deriving DecidableEq

namespace Decimal

/-- The same decimal with no zero at the end of its digits. -/
def normalize (digits : Nat) (exponent : Int) : Decimal :=
  if digits ≠ 0 ∧ digits % 10 = 0 then normalize (digits / 10) (exponent + 1)
  else ⟨digits, exponent⟩
termination_by digits
decreasing_by omega

/-- Exponents from this one on, and below `positionalEnd`, are written with the point among the
digits; the exponent is that of the first digit. -/
def positionalStart : Int := -5

/-- The first exponent that is too large for a point among the digits. -/
def positionalEnd : Int := 16

/-- The text of a decimal: at least one digit on either side of a point among the digits; otherwise
one digit, the others after a point if there are any, and the signed exponent. -/
def text (decimal : Decimal) : String :=
  let digits := Nat.toDigits 10 decimal.digits
  let leading : Int := decimal.exponent + digits.length - 1
  String.ofList <|
    if positionalStart ≤ leading ∧ leading < positionalEnd then
      if leading < 0 then
        '0' :: '.' :: List.replicate (-leading - 1).toNat '0' ++ digits
      else if 0 ≤ decimal.exponent then
        digits ++ List.replicate decimal.exponent.toNat '0' ++ ['.', '0']
      else
        digits.take (leading.toNat + 1) ++ '.' :: digits.drop (leading.toNat + 1)
    else
      let fraction := digits.drop 1
      let sign := if leading < 0 then '-' else '+'
      digits.take 1 ++ (if fraction.isEmpty then [] else '.' :: fraction)
        ++ 'e' :: sign :: Nat.toDigits 10 leading.natAbs

end Decimal

namespace Binary64

/-- The exponent of the first decimal digit of a positive fraction. -/
def leadingExponent (numerator denominator : Nat) : Int :=
  let estimate : Int :=
    (Nat.toDigits 10 numerator).length - (Nat.toDigits 10 denominator).length
  if denominator * powerOfTen estimate.toNat ≤ numerator * powerOfTen (-estimate).toNat then
    estimate
  else
    estimate - 1

/-- The multiples of half the least positive magnitude that round to a rank: from `low` to `high`,
with the ends if `closed`, around the magnitude itself, `middle`. -/
structure RoundingInterval where
  low : Nat
  middle : Nat
  high : Nat
  closed : Bool

/-- The rounding interval of a rank. It ends halfway to the neighbouring ranks, and a tie goes to
the even rank. -/
def roundingInterval (rank : Nat) : RoundingInterval where
  low := units (rank - 1) + units rank
  middle := 2 * units rank
  high := units rank + units (rank + 1)
  closed := rank % 2 == 0

/-- How many halves of the least positive magnitude make one. -/
def halfUnitsPerOne : Nat := 2 * unitsPerOne

/-- The multiple of `10 ^ exponent` that rounds to the rank of the interval and is nearest to its
magnitude, if one of the two multiples around the magnitude does. -/
def RoundingInterval.multiple? (interval : RoundingInterval) (exponent : Int) : Option Nat :=
  let scale := powerOfTen (-exponent).toNat
  let step := halfUnitsPerOne * powerOfTen exponent.toNat
  let fits (candidate : Nat) : Bool :=
    if interval.closed then
      interval.low * scale ≤ candidate * step && candidate * step ≤ interval.high * scale
    else interval.low * scale < candidate * step && candidate * step < interval.high * scale
  let below := interval.middle * scale / step
  match fits below, fits (below + 1) with
  | true, true => some (roundHalfEven (interval.middle * scale) step)
  | true, false => some below
  | false, true => some (below + 1)
  | false, false => none

/-- Seventeen digits tell any two binary64 numbers apart. -/
def maxDigits : Nat := 17

/-- The decimal with the fewest digits that rounds to the given rank. -/
def shortest (rank : Nat) : Decimal :=
  let interval := roundingInterval rank
  let leading := leadingExponent interval.middle halfUnitsPerOne
  let found := (List.range maxDigits).findSome? fun (further : Nat) =>
    let exponent := leading - further
    (interval.multiple? exponent).map fun digits => Decimal.normalize digits exponent
  found.getD ⟨0, 0⟩

/-- The shortest text that reads back as the number. A zero keeps its sign. -/
def text (x : Binary64) : String :=
  let magnitude := if x.isZero then "0.0" else (shortest x.rank).text
  if x.negative then "-" ++ magnitude else magnitude

end Binary64

end Dotted
