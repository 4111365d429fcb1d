import TailLint.Number.Binary64
import TailLint.Text.Blank
import TailLint.Text.DecimalDigit

/-!
# Numerals

Decides whether a token is the text of a number, and of which one.  A numeral may
have padding around it, its digits may come from any script, and a single
underscore may stand between two digits.  A whole number has at most
`maxWholeDigits` digits; a longer row of digits is still read, as the binary64
number nearest to it.

The same bound holds for writing.  An integer that is not short (`ShortInt`) becomes no
leaf of a tree and is not shown by a loader that refuses it, although it may be held
and compared like any other.
-/

namespace TailLint

/-- The most digits of a whole number that is read, where leading zeros count, and of
an integer that is written. -/
def Numeral.maxWholeDigits : Nat := 4300

/-- Whether an integer has few enough decimal digits to be written, and to be read as a
whole number. -/
def ShortInt (n : Int) : Prop := (Text.natText n.natAbs).length ≤ Numeral.maxWholeDigits

instance (n : Int) : Decidable (ShortInt n) := Nat.decLe _ _

namespace Numeral

/-- The token without padding and with ASCII digits in place of all others. -/
def plain (token : List Char) : List Char :=
  (Text.trimPadding token).map fun c => ((Text.digitValue? c).map Text.digitChar).getD c

/-- A leading sign and the rest: `true` for a minus. -/
def splitSign : List Char → Bool × List Char
  | '-' :: rest => (true, rest)
  | '+' :: rest => (false, rest)
  | rest => (false, rest)

/-- The text without its underscores, each of which has to stand between two
digits.  `kept` holds what has been read, the latest character first. -/
def ungroup? (kept : List Char) : List Char → Option (List Char)
  | [] => some kept.reverse
  | ['_'] => none
  | '_' :: next :: rest =>
    if (kept.head?.any Char.isDigit) && next.isDigit then ungroup? (next :: kept) rest else none
  | c :: rest => ungroup? (c :: kept) rest

/-- The values of a row of ASCII digits. -/
def digitValues (digits : List Char) : List Nat :=
  digits.map fun c => c.toNat - 48

/-- The number that a row of ASCII digits spells. -/
def value (digits : List Char) : Nat := Text.ofDigits (digitValues digits)

/-- A negative or a positive integer of the given size. -/
def signed (negative : Bool) (size : Nat) : Int := if negative then -(size : Int) else size

/-- The whole number that a token spells, if it spells one. -/
def whole? (token : List Char) : Option Int :=
  let (negative, body) := splitSign (plain token)
  match ungroup? [] body with
  | some digits =>
    if !digits.isEmpty && digits.all Char.isDigit && digits.length ≤ maxWholeDigits
    then some (signed negative (value digits)) else none
  | none => none

/-- The decimal exponent at the end of a numeral: the mark, a sign and digits, or
nothing at all. -/
def exponent? : List Char → Option Int
  | [] => some 0
  | mark :: rest =>
    let (negative, digits) := splitSign rest
    if (mark = 'e' || mark = 'E') && !digits.isEmpty && digits.all Char.isDigit
    then some (signed negative (value digits)) else none

/-- Digits, a point and digits, of which either row may be missing but not both,
and an exponent. -/
def decimal? (negative : Bool) (body : List Char) : Option Binary64 :=
  let (whole, rest) := body.span Char.isDigit
  let (fraction, rest) := match rest with
    | '.' :: rest => rest.span Char.isDigit
    | rest => ([], rest)
  if whole.isEmpty && fraction.isEmpty then none
  else (exponent? rest).map fun exponent =>
    Binary64.ofDecimal negative (value (whole ++ fraction)) (exponent - fraction.length)

/-- The binary64 number that a token spells, if it spells one. -/
def binary64? (token : List Char) : Option Binary64 :=
  let (negative, body) := splitSign (plain token)
  match String.ofList (body.map Char.toLower) with
  | "inf" => some (.infinite negative)
  | "infinity" => some (.infinite negative)
  | "nan" => some .nan
  | _ => (ungroup? [] body).bind (decimal? negative)

end Numeral

end TailLint
