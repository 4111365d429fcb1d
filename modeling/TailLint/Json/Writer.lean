import TailLint.Json.Basic

/-!
# Writing JSON

One line of ASCII per value.  A comma and a colon are followed by one space.  The
characters from the space to the tilde are written as they are, but for the quote and
the backslash, and every other character is escaped, in two halves when it lies beyond
the basic plane.  So the written line holds no line break and can be cut at its end
without decoding it.
-/

namespace TailLint.Json

/-- An escape by code unit: `\u` and four hexadecimal digits. -/
def unitEscape (unit : Nat) : List Char := '\\' :: 'u' :: Text.hexText 4 unit

/-- One character inside a written string. -/
def writeChar (c : Char) : List Char :=
  if c = '"' || c = '\\' then ['\\', c]
  else if c = '\n' then ['\\', 'n']
  else if c = '\r' then ['\\', 'r']
  else if c = '\t' then ['\\', 't']
  else if c = '\x08' then ['\\', 'b']
  else if c = '\x0c' then ['\\', 'f']
  else if 0x20 ≤ c.toNat && c.toNat < 0x7f then [c]
  else if c.toNat < 0x10000 then unitEscape c.toNat
  else
    unitEscape (0xd800 + (c.toNat - 0x10000) / 0x400)
      ++ unitEscape (0xdc00 + (c.toNat - 0x10000) % 0x400)

/-- A written string, with its quotes. -/
def writeString (s : String) : List Char :=
  '"' :: s.toList.flatMap writeChar ++ ['"']

/-- A written binary64 number. -/
def writeFloat : Binary64 → List Char
  | .nan => "NaN".toList
  | .infinite negative => if negative then "-Infinity".toList else "Infinity".toList
  | value => value.text.toList

/-- Pieces with a comma and a space between each two. -/
def commaSeparated : List (List Char) → List Char
  | [] => []
  | [piece] => piece
  | piece :: rest => piece ++ ',' :: ' ' :: commaSeparated rest

mutual

/-- The written form of a value. -/
def write : Json → List Char
  | .null => "null".toList
  | .boolean value => if value then "true".toList else "false".toList
  | .integer value => Text.intText value
  | .float value => writeFloat value
  | .string value => writeString value
  | .array items => '[' :: commaSeparated (writeItems items) ++ [']']
  | .object members => '{' :: commaSeparated (writeMembers members) ++ ['}']

/-- The written items of an array. -/
def writeItems : List Json → List (List Char)
  | [] => []
  | item :: rest => write item :: writeItems rest

/-- The written members of an object. -/
def writeMembers : List (String × Json) → List (List Char)
  | [] => []
  | (key, value) :: rest => (writeString key ++ ':' :: ' ' :: write value) :: writeMembers rest

end

/-- The written form of a value, as a string. -/
def render (value : Json) : String := String.ofList (write value)

end TailLint.Json
