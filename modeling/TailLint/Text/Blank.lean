/-!
# Blank characters

Three different readers skip blanks, and each has its own idea of what a blank
is.  The widest one belongs to number tokens: it takes in every space character
of the Unicode repertoire, with one exception that matters --- the four
separators U+001C to U+001F are spaces to Unicode and yet are no padding around
a number.
-/

namespace TailLint.Text

/-- The six ASCII blanks: space, tab, newline, carriage return, vertical tab and
form feed.  They separate the forms of a tree file. -/
def isBlank (c : Char) : Bool :=
  c = ' ' || (9 ≤ c.toNat && c.toNat ≤ 13)

/-- The blanks between the tokens of a JSON text. -/
def isJsonBlank (c : Char) : Bool :=
  c = ' ' || c = '\t' || c = '\n' || c = '\r'

/-- The space characters beyond ASCII. -/
def wideBlanks : List Nat :=
  [0x85, 0xa0, 0x1680, 0x2000, 0x2001, 0x2002, 0x2003, 0x2004, 0x2005, 0x2006, 0x2007,
    0x2008, 0x2009, 0x200a, 0x2028, 0x2029, 0x202f, 0x205f, 0x3000]

/-- The padding that may stand around a number. -/
def isPadding (c : Char) : Bool :=
  isBlank c || wideBlanks.contains c.toNat

/-- The text without the padding at its two ends. -/
def trimPadding (s : List Char) : List Char :=
  ((s.dropWhile isPadding).reverse.dropWhile isPadding).reverse

end TailLint.Text
