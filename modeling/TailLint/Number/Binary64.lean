/-!
# Binary64 numbers

Tree files and policy files may hold numbers with a fraction or an exponent.  The
linter never computes with them: it reads them, decides whether they are finite,
and writes them back.  So a number is kept here as what its 64 bits say --- a sign,
a mantissa below `2 ^ 53` and a power of two --- and reading one is a single exact
rounding of a quotient of naturals.  No step uses machine floating point, so every
step can be reasoned about.

* `roundDiv` rounds a quotient to the nearest natural, a tie to the even one.
* `Binary64.ofRatio` is the number nearest to a quotient of naturals.
* `Binary64.ofDecimal` is the number nearest to `digits * 10 ^ exponent`.
-/

namespace TailLint

/-- The natural number nearest to `num / den`; of two equally near ones the even
one. -/
def roundDiv (num den : Nat) : Nat :=
  let quotient := num / den
  let twice := 2 * (num % den)
  if twice < den || (twice = den && quotient % 2 = 0) then quotient else quotient + 1

/-- The numbers of the binary64 format.  A finite number is
`mantissa * 2 ^ exponent`, with a sign that zero has too. -/
inductive Binary64 where
  | nan
  | infinite (negative : Bool)
  | finite (negative : Bool) (mantissa : Nat) (exponent : Int)
  deriving DecidableEq, Inhabited

namespace Binary64

/-- The least exponent: that of zero and of the subnormal numbers. -/
def minExponent : Int := -1074

/-- The greatest exponent of a finite number. -/
def maxExponent : Int := 971

/-- Mantissas stay below this bound, and above half of it unless the exponent is
the least one. -/
def mantissaBound : Nat := 9007199254740992

/-- A power of two; one if the exponent is negative.  A quotient with a power of two
of any sign in it is a quotient of two of these. -/
def twoPow (exponent : Int) : Nat := Nat.pow 2 exponent.toNat

/-- A power of ten; one if the exponent is negative. -/
def tenPow (exponent : Int) : Nat := Nat.pow 10 exponent.toNat

/-- Whether the number is neither infinite nor the mark for "not a number". -/
def isFinite : Binary64 → Bool
  | .finite .. => true
  | _ => false

/-- The integer part of the binary logarithm of `num / den`. -/
def floorLog2 (num den : Nat) : Int :=
  let guess : Int := (num.log2 : Int) - (den.log2 : Int)
  if den * twoPow guess ≤ num * twoPow (-guess) then guess else guess - 1

/-- `num / den`, in units of `2 ^ exponent`, rounded. -/
def roundScaled (num den : Nat) (exponent : Int) : Nat :=
  roundDiv (num * twoPow (-exponent)) (den * twoPow exponent)

/-- The number nearest to `num / den`, for a positive `den`. -/
def ofRatio (negative : Bool) (num den : Nat) : Binary64 :=
  if num = 0 then
    .finite negative 0 minExponent
  else
    let exponent := max (floorLog2 num den - 52) minExponent
    let mantissa := roundScaled num den exponent
    let carried := mantissa = mantissaBound
    let mantissa := if carried then mantissaBound / 2 else mantissa
    let exponent := if carried then exponent + 1 else exponent
    if maxExponent < exponent then .infinite negative else .finite negative mantissa exponent

/-- The number nearest to `digits * 10 ^ exponent`.  Powers beyond the range of
the format are not computed: above `10 ^ 310` everything is infinite, and below
`10 ^ (-330)` everything is zero. -/
def ofDecimal (negative : Bool) (digits : Nat) (exponent : Int) : Binary64 :=
  if digits = 0 then
    .finite negative 0 minExponent
  else if 310 < exponent then
    .infinite negative
  else if exponent + (digits.log2 : Int) / 3 + 2 < -330 then
    .finite negative 0 minExponent
  else
    ofRatio negative (digits * tenPow exponent) (tenPow (-exponent))

end Binary64

end TailLint
