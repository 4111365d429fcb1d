import TailLint.Text.Printable

/-!
# Quoted text in messages

Messages show a piece of text between quotes, in such a way that the reader can
tell every two texts apart.  The quote is an apostrophe, unless the text holds an
apostrophe and no double quote.  The quote in use and the backslash are preceded
by a backslash, the three usual line characters have their short names, and every
other character that is not printable is spelled by its code point, with as many
hexadecimal digits as its size asks for.
-/

namespace TailLint.Text

/-- The low `width` hexadecimal digits of a number, in lower case. -/
def hexText : Nat → Nat → List Char
  | 0, _ => []
  | width + 1, n => hexText width (n / 16) ++ [Nat.digitChar (n % 16)]

/-- The quote chosen for a text. -/
def quoteMark (s : List Char) : Char :=
  if s.contains '\'' && !s.contains '"' then '"' else '\''

/-- How one character is written between the given quotes. -/
def escapeChar (mark c : Char) : List Char :=
  if c = '\\' || c = mark then ['\\', c]
  else if c = '\n' then ['\\', 'n']
  else if c = '\r' then ['\\', 'r']
  else if c = '\t' then ['\\', 't']
  else if isPrintable c then [c]
  else if c.toNat < 0x100 then '\\' :: 'x' :: hexText 2 c.toNat
  else if c.toNat < 0x10000 then '\\' :: 'u' :: hexText 4 c.toNat
  else '\\' :: 'U' :: hexText 8 c.toNat

/-- A text between quotes, as messages show it. -/
def quoted (s : String) : String :=
  let chars := s.toList
  let mark := quoteMark chars
  String.ofList (mark :: chars.flatMap (escapeChar mark) ++ [mark])

end TailLint.Text
