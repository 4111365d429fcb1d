import TailLint.Number.Binary64
import TailLint.Text.DecimalDigit

/-!
# The shortest decimal of a binary64 number

Among the decimals that read back as a given number there is a shortest one, and
that one is printed.  Which decimals read back is a question about an interval:
all reals nearer to the number than to its two neighbours do, and the two ends of
the interval do when the mantissa is even, since ties go to even.

The search goes through the grids of one digit, two digits, and so on.  If any
point of a grid lies in the interval then one of the two points next to the number
does, so two candidates per grid are enough; seventeen digits always succeed.

`Binary64.text` then fixes the notation: positional for decimal exponents from -4
to 15, always with a fraction, and otherwise a mantissa and a signed exponent of at
least two digits.
-/

namespace TailLint

/-- The number `digits * 10 ^ exponent`. -/
structure Decimal where
  digits : Nat
  exponent : Int
  deriving DecidableEq, Inhabited

namespace Binary64

/-- Compares `a * 10 ^ p` with `b * 2 ^ q`. -/
def compareScaled (a : Nat) (p : Int) (b : Nat) (q : Int) : Ordering :=
  compare (a * tenPow p * twoPow (-q)) (b * twoPow q * tenPow (-p))

/-- The integer part of `mantissa * 2 ^ exponent / 10 ^ place`. -/
def floorAt (mantissa : Nat) (exponent place : Int) : Nat :=
  (mantissa * twoPow exponent * tenPow (-place)) / (twoPow (-exponent) * tenPow place)

/-- The integer part of the decimal logarithm of `mantissa * 2 ^ exponent`.  The
guess from the binary logarithm is off by one at most. -/
def floorLog10 (mantissa : Nat) (exponent : Int) : Int :=
  let guess := ((mantissa.log2 : Int) + exponent) * 30103 / 100000
  if compareScaled 1 (guess + 1) mantissa exponent != .gt then guess + 1
  else if compareScaled 1 guess mantissa exponent != .gt then guess
  else guess - 1

/-- Whether `digits * 10 ^ place` reads back as `mantissa * 2 ^ exponent`.  Both
ends of the interval are counted in quarters of the last place, because the gap
below a power of two is half as wide. -/
def readsBack (mantissa : Nat) (exponent : Int) (digits : Nat) (place : Int) : Bool :=
  let low := if mantissa = mantissaBound / 2 && minExponent < exponent
    then 4 * mantissa - 1 else 4 * mantissa - 2
  let high := 4 * mantissa + 2
  let below := compareScaled digits place low (exponent - 2)
  let above := compareScaled digits place high (exponent - 2)
  if mantissa % 2 = 0 then below != .lt && above != .gt else below == .gt && above == .lt

/-- The point of one grid that reads back, the nearer one of two, and of two
equally near ones the even one. -/
def onGrid? (mantissa : Nat) (exponent place : Int) : Option Decimal :=
  let lower := floorAt mantissa exponent place
  let upper := lower + 1
  let lowerFits := readsBack mantissa exponent lower place
  let upperFits := readsBack mantissa exponent upper place
  if lowerFits && upperFits then
    match compareScaled (lower + upper) place (2 * mantissa) exponent with
    | .gt => some ⟨lower, place⟩
    | .lt => some ⟨upper, place⟩
    | .eq => some ⟨if lower % 2 = 0 then lower else upper, place⟩
  else if lowerFits then some ⟨lower, place⟩
  else if upperFits then some ⟨upper, place⟩
  else none

/-- The shortest decimal that reads back as `mantissa * 2 ^ exponent`. -/
def shortest (mantissa : Nat) (exponent : Int) : Decimal :=
  let top := floorLog10 mantissa exponent
  ((List.range 17).findSome? fun further : Nat => onGrid? mantissa exponent (top - further)).getD
    ⟨floorAt mantissa exponent (top - 16), top - 16⟩

end Binary64

namespace Decimal

/-- The digits of the number without the zeros at their end. -/
def significant (d : Decimal) : List Char :=
  ((Text.natText d.digits).reverse.dropWhile (· = '0')).reverse

/-- How many of the digits stand before the decimal point; not positive when zeros
stand between the point and the first digit. -/
def pointPlace (d : Decimal) : Int :=
  (Text.natText d.digits).length + d.exponent

/-- The text without an exponent. -/
def positional (digits : List Char) (point : Int) : List Char :=
  if point ≤ 0 then
    '0' :: '.' :: List.replicate (-point).toNat '0' ++ digits
  else if digits.length ≤ point then
    digits ++ List.replicate (point.toNat - digits.length) '0' ++ ['.', '0']
  else
    digits.take point.toNat ++ '.' :: digits.drop point.toNat

/-- The text of a decimal exponent: a sign and at least two digits. -/
def exponentText (exponent : Int) : List Char :=
  let digits := Text.natText exponent.natAbs
  (if exponent < 0 then '-' else '+') :: (if digits.length < 2 then '0' :: digits else digits)

/-- The text with an exponent. -/
def scientific (digits : List Char) (point : Int) : List Char :=
  match digits with
  | [] => []
  | first :: [] => first :: 'e' :: exponentText (point - 1)
  | first :: rest => first :: '.' :: rest ++ 'e' :: exponentText (point - 1)

/-- Positional for decimal exponents from -4 to 15, with an exponent otherwise. -/
def text (d : Decimal) : List Char :=
  if -4 < d.pointPlace && d.pointPlace ≤ 16 then
    positional d.significant d.pointPlace
  else
    scientific d.significant d.pointPlace

end Decimal

/-- The text of a number: its shortest decimal, `0.0` for zero, and words for the
numbers that are not finite. -/
def Binary64.text : Binary64 → String
  | .nan => "nan"
  | .infinite negative => if negative then "-inf" else "inf"
  | .finite negative mantissa exponent =>
    let digits := if mantissa = 0 then "0.0".toList else (shortest mantissa exponent).text
    String.ofList (if negative then '-' :: digits else digits)

end TailLint
