import TailLint.Json.Basic
import TailLint.Number.Numeral
import TailLint.Text.Blank

/-!
# Reading JSON

A reader that says where and why a text is not JSON.  It accepts a little more than
the standard: the words `NaN`, `Infinity` and `-Infinity` are numbers.  Whole
numbers have at most `Numeral.maxWholeDigits` digits, which is a refusal of its own
kind (`Fault.hugeInteger`) and not a fault of the notation.

Every reading step takes the text that is left and gives back a value and the text
that is left after it.  No step carries a position: a fault holds the number of
characters that were left when it was met, and `parse` turns that number into an
offset, a line and a column.

The mutual recursion of the value reader is driven by fuel.  Each call but the one
from a container to its next value consumes a character, so twice the length of the
text is more than enough, and `parse` supplies that.
-/

namespace TailLint.Json

/-! ## Faults -/

/-- What is wrong with a text that is not JSON. -/
inductive Malformation where
  | byteOrderMark
  | value
  | property
  | colon
  | comma
  | extraData
  | unterminated
  | controlCharacter
  | escape
  | unicodeEscape
  deriving DecidableEq

/-- The wording of each malformation. -/
def Malformation.text : Malformation → String
  | .byteOrderMark => "Unexpected UTF-8 BOM (decode using utf-8-sig)"
  | .value => "Expecting value"
  | .property => "Expecting property name enclosed in double quotes"
  | .colon => "Expecting ':' delimiter"
  | .comma => "Expecting ',' delimiter"
  | .extraData => "Extra data"
  | .unterminated => "Unterminated string starting at"
  | .controlCharacter => "Invalid control character at"
  | .escape => "Invalid \\escape"
  | .unicodeEscape => "Invalid \\uXXXX escape"

/-- Why reading stopped.  A malformation holds the number of characters that were
left where it was found. -/
inductive Fault where
  | malformed (what : Malformation) (left : Nat)
  | hugeInteger (digits : Nat)
  deriving DecidableEq

/-- A value, or whatever was read, and the text after it. -/
abbrev Step (α : Type) := Except Fault (α × List Char)

/-- The text from its first character that is no blank. -/
def skipBlanks (s : List Char) : List Char := s.dropWhile Text.isJsonBlank

/-- The refusal of the text `s` at its first character. -/
def refuse {α : Type} (what : Malformation) (s : List Char) : Except Fault α :=
  .error (.malformed what s.length)

/-! ## Strings -/

/-- The value of an ASCII hexadecimal digit. -/
def hexValue? (c : Char) : Option Nat :=
  if c.isDigit then some (c.toNat - 48)
  else if 'a' ≤ c && c ≤ 'f' then some (c.toNat - 87)
  else if 'A' ≤ c && c ≤ 'F' then some (c.toNat - 55)
  else none

/-- The code unit that four hexadecimal digits spell. -/
def unit? (a b c d : Char) : Option Nat := do
  let a ← hexValue? a
  let b ← hexValue? b
  let c ← hexValue? c
  let d ← hexValue? d
  return ((a * 16 + b) * 16 + c) * 16 + d

/-- The character of a backslash escape of one letter. -/
def shortEscape? (c : Char) : Option Char :=
  if c = '"' || c = '\\' || c = '/' then some c
  else if c = 'b' then some '\x08'
  else if c = 'f' then some '\x0c'
  else if c = 'n' then some '\n'
  else if c = 'r' then some '\r'
  else if c = 't' then some '\t'
  else none

/-- The character of a code unit.  Half of a pair that stands alone is no character
and is read as the replacement character. -/
def unitChar (unit : Nat) : Char :=
  if 0xd800 ≤ unit && unit < 0xe000 then '\ufffd' else Char.ofNat unit

/-- Whether a code unit is the first half of a pair. -/
def isHighHalf (unit : Nat) : Bool := 0xd800 ≤ unit && unit < 0xdc00

/-- Whether a code unit is the second half of a pair. -/
def isLowHalf (unit : Nat) : Bool := 0xdc00 ≤ unit && unit < 0xe000

/-- The character of a pair of code units. -/
def pairChar (high low : Nat) : Char :=
  Char.ofNat (0x10000 + (high - 0xd800) * 0x400 + (low - 0xdc00))

/-- The characters read so far, with the half of a pair that waited for its other
half in vain. -/
def settle (high : Option Nat) (read : List Char) : List Char :=
  match high with
  | none => read
  | some unit => unitChar unit :: read

/-- The rest of a string after its opening quote.  `opening` is the number of
characters left at that quote, `high` is the first half of a pair if the last thing
read was one, and `read` holds the characters before it, the latest first.  An
escape by code unit needs one more character after it, since a string has a closing
quote. -/
def readString (opening : Nat) (high : Option Nat) (read : List Char) :
    List Char → Step String
  | [] => .error (.malformed .unterminated opening)
  | '"' :: rest => .ok (String.ofList (settle high read).reverse, rest)
  | '\\' :: [] => .error (.malformed .unterminated opening)
  | '\\' :: 'u' :: a :: b :: c :: d :: rest =>
    match unit? a b c d, rest.isEmpty with
    | some unit, false =>
      match high, isLowHalf unit with
      | some first, true => readString opening none (pairChar first unit :: read) rest
      | high, _ =>
        if isHighHalf unit then readString opening (some unit) (settle high read) rest
        else readString opening none (unitChar unit :: settle high read) rest
    | _, _ => .error (.malformed .unicodeEscape (rest.length + 5))
  | '\\' :: 'u' :: rest => .error (.malformed .unicodeEscape (rest.length + 1))
  | '\\' :: c :: rest =>
    match shortEscape? c with
    | some char => readString opening none (char :: settle high read) rest
    | none => .error (.malformed .escape (rest.length + 2))
  | c :: rest =>
    if c.toNat < 0x20 then .error (.malformed .controlCharacter (rest.length + 1))
    else readString opening none (c :: settle high read) rest

/-! ## Numbers -/

/-- The whole part of a number after its sign: a zero alone, or digits that do not
start with one. -/
def splitWhole : List Char → List Char × List Char
  | '0' :: rest => (['0'], rest)
  | rest => rest.span Char.isDigit

/-- The fraction, present only if a digit follows the point. -/
def splitFraction : List Char → List Char × List Char
  | '.' :: c :: rest =>
    if c.isDigit then (c :: rest).span Char.isDigit else ([], '.' :: c :: rest)
  | rest => ([], rest)

/-- The exponent, present only if it has a digit. -/
def splitExponent : List Char → Option Int × List Char
  | mark :: rest =>
    let (negative, body) := Numeral.splitSign rest
    let (digits, after) := body.span Char.isDigit
    if (mark = 'e' || mark = 'E') && !digits.isEmpty
    then (some (Numeral.signed negative (Numeral.value digits)), after)
    else (none, mark :: rest)
  | [] => (none, [])

/-- A number.  With a fraction or an exponent it is a binary64 number, otherwise a
whole one. -/
def readNumber (s : List Char) : Step Json :=
  let (negative, body) := match s with
    | '-' :: rest => (true, rest)
    | rest => (false, rest)
  let (whole, afterWhole) := splitWhole body
  if whole.isEmpty then
    refuse .value s
  else
    let (fraction, afterFraction) := splitFraction afterWhole
    let (exponent, rest) := splitExponent afterFraction
    if fraction.isEmpty && exponent.isNone then
      if Numeral.maxWholeDigits < whole.length then .error (.hugeInteger whole.length)
      else .ok (.integer (Numeral.signed negative (Numeral.value whole)), rest)
    else
      .ok (.float (Binary64.ofDecimal negative (Numeral.value (whole ++ fraction))
        (exponent.getD 0 - fraction.length)), rest)

/-! ## Values -/

/-- A key and the colon after it. -/
def readKey (s : List Char) : Step String :=
  match s with
  | '"' :: rest =>
    match readString s.length none [] rest with
    | .error fault => .error fault
    | .ok (key, rest) =>
      match skipBlanks rest with
      | ':' :: rest => .ok (key, skipBlanks rest)
      | rest => refuse .colon rest
  | s => refuse .property s

mutual

/-- One value. -/
def readValue : Nat → List Char → Step Json
  | 0, s => refuse .value s
  | fuel + 1, s =>
    match s with
    | '"' :: rest => (readString s.length none [] rest).map fun (value, rest) => (.string value, rest)
    | '{' :: rest =>
      match skipBlanks rest with
      | '}' :: rest => .ok (.object [], rest)
      | rest => readMembers fuel [] rest
    | '[' :: rest =>
      match skipBlanks rest with
      | ']' :: rest => .ok (.array [], rest)
      | rest => readItems fuel [] rest
    | 'n' :: 'u' :: 'l' :: 'l' :: rest => .ok (.null, rest)
    | 't' :: 'r' :: 'u' :: 'e' :: rest => .ok (.boolean true, rest)
    | 'f' :: 'a' :: 'l' :: 's' :: 'e' :: rest => .ok (.boolean false, rest)
    | 'N' :: 'a' :: 'N' :: rest => .ok (.float .nan, rest)
    | 'I' :: 'n' :: 'f' :: 'i' :: 'n' :: 'i' :: 't' :: 'y' :: rest =>
      .ok (.float (.infinite false), rest)
    | '-' :: 'I' :: 'n' :: 'f' :: 'i' :: 'n' :: 'i' :: 't' :: 'y' :: rest =>
      .ok (.float (.infinite true), rest)
    | s => readNumber s

/-- The items of an array from the next one on, after those in `read`, the latest
first. -/
def readItems : Nat → List Json → List Char → Step Json
  | 0, _, s => refuse .value s
  | fuel + 1, read, s =>
    match readValue fuel s with
    | .error fault => .error fault
    | .ok (item, rest) =>
      match skipBlanks rest with
      | ']' :: rest => .ok (.array (item :: read).reverse, rest)
      | ',' :: rest => readItems fuel (item :: read) (skipBlanks rest)
      | rest => refuse .comma rest

/-- The members of an object from the next one on, after those in `read`. -/
def readMembers : Nat → List (String × Json) → List Char → Step Json
  | 0, _, s => refuse .value s
  | fuel + 1, read, s =>
    match readKey s with
    | .error fault => .error fault
    | .ok (key, rest) =>
      match readValue fuel rest with
      | .error fault => .error fault
      | .ok (value, rest) =>
        match skipBlanks rest with
        | '}' :: rest => .ok (.object (put key value read), rest)
        | ',' :: rest => readMembers fuel (put key value read) (skipBlanks rest)
        | rest => refuse .comma rest

end

/-- A whole text: one value with blanks around it. -/
def readText (s : List Char) : Except Fault Json :=
  match s with
  | '\ufeff' :: _ => refuse .byteOrderMark s
  | s =>
    match readValue (2 * s.length + 2) (skipBlanks s) with
    | .error fault => .error fault
    | .ok (value, rest) =>
      match skipBlanks rest with
      | [] => .ok value
      | rest => refuse .extraData rest

/-! ## Places in the text -/

/-- Why a text is no JSON value, with the place of the fault: its offset, its line
counted from one and its column. -/
inductive ParseError where
  | malformed (what : Malformation) (offset line column : Nat)
  | hugeInteger (digits : Nat)
  deriving DecidableEq

namespace ParseError

/-- The error for a fault in the text `s`. -/
def ofFault (s : List Char) : Fault → ParseError
  | .malformed what left =>
    let before := s.take (s.length - left)
    let column := (before.reverse.takeWhile (· ≠ '\n')).length + 1
    .malformed what before.length (before.count '\n' + 1) column
  | .hugeInteger digits => .hugeInteger digits

/-- The wording of an error. -/
def text : ParseError → String
  | .malformed what offset line column =>
    s!"{what.text}: line {line} column {column} (char {offset})"
  | .hugeInteger digits =>
    s!"Exceeds the limit ({Numeral.maxWholeDigits} digits) for integer string conversion: "
      ++ s!"value has {digits} digits; use sys.set_int_max_str_digits() to increase the limit"

end ParseError

/-- The value that a text holds. -/
def parse (text : String) : Except ParseError Json :=
  (readText text.toList).mapError (ParseError.ofFault text.toList)

end TailLint.Json
