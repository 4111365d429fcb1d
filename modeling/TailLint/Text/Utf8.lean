import TailLint.Text.Quoted

/-!
# UTF-8

File contents are bytes and trees are read from characters.  Decoding is strict:
the first byte that cannot stand where it stands ends it, and the error names the
stretch of bytes that is to blame --- the lead byte alone when no character starts
with it, and otherwise the lead byte with those of its continuation bytes that were
still good.

The state between two bytes is a `Pending` character: how many continuation bytes
it still owes, the bits collected so far, the bytes they came from, and the range in
which the next byte has to lie.  That range is what excludes overlong forms,
surrogates and numbers beyond the last code point, because only the byte after the
lead byte can betray them.
-/

namespace TailLint.Text.Utf8

/-- Why a stretch of bytes is no character. -/
inductive Reason where
  | startByte
  | continuationByte
  | endOfData
  deriving DecidableEq

/-- The wording of each reason. -/
def Reason.text : Reason → String
  | .startByte => "invalid start byte"
  | .continuationByte => "invalid continuation byte"
  | .endOfData => "unexpected end of data"

/-- The undecodable stretch: the bytes of a broken character and the offset of the
first of them. -/
structure DecodeError where
  bytes : List UInt8
  offset : Nat
  reason : Reason
  deriving DecidableEq

/-- The wording of an error: one byte is named by its value, several by their
offsets. -/
def DecodeError.text (e : DecodeError) : String :=
  let stretch := match e.bytes with
    | [byte] =>
      "byte 0x" ++ String.ofList (hexText 2 byte.toNat) ++ s!" in position {e.offset}"
    | bytes => s!"bytes in position {e.offset}-{e.offset + bytes.length - 1}"
  "'utf-8' codec can't decode " ++ stretch ++ ": " ++ e.reason.text

/-- A character part way through: the continuation bytes it still owes, its bits so
far, its bytes so far with the latest first, and the bounds of the next byte. -/
structure Pending where
  owed : Nat
  bits : Nat
  bytes : List UInt8
  low : Nat := 0x80
  high : Nat := 0xbf
  deriving DecidableEq

/-- What a byte beyond ASCII opens, if a character can start with it. -/
def lead? (byte : UInt8) : Option Pending :=
  let b := byte.toNat
  if 0xc2 ≤ b && b ≤ 0xdf then some ⟨1, b - 0xc0, [byte], 0x80, 0xbf⟩
  else if b = 0xe0 then some ⟨2, 0, [byte], 0xa0, 0xbf⟩
  else if b = 0xed then some ⟨2, 0xd, [byte], 0x80, 0x9f⟩
  else if 0xe1 ≤ b && b ≤ 0xef then some ⟨2, b - 0xe0, [byte], 0x80, 0xbf⟩
  else if b = 0xf0 then some ⟨3, 0, [byte], 0x90, 0xbf⟩
  else if b = 0xf4 then some ⟨3, 4, [byte], 0x80, 0x8f⟩
  else if 0xf1 ≤ b && b ≤ 0xf3 then some ⟨3, b - 0xf0, [byte], 0x80, 0xbf⟩
  else none

/-- Decodes the bytes from `offset` on.  `read` holds the characters before them,
the latest first, and `pending` the character that is part way through. -/
def decodeFrom (offset : Nat) (read : List Char) (pending : Option Pending) :
    List UInt8 → Except DecodeError (List Char)
  | [] =>
    match pending with
    | none => .ok read.reverse
    | some p => .error ⟨p.bytes.reverse, offset - p.bytes.length, .endOfData⟩
  | byte :: rest =>
    match pending with
    | none =>
      if byte.toNat < 0x80 then
        decodeFrom (offset + 1) (Char.ofNat byte.toNat :: read) none rest
      else
        match lead? byte with
        | none => .error ⟨[byte], offset, .startByte⟩
        | some p => decodeFrom (offset + 1) read (some p) rest
    | some p =>
      if p.low ≤ byte.toNat && byte.toNat ≤ p.high then
        let bits := p.bits * 64 + (byte.toNat - 0x80)
        if p.owed ≤ 1 then decodeFrom (offset + 1) (Char.ofNat bits :: read) none rest
        else decodeFrom (offset + 1) read (some ⟨p.owed - 1, bits, byte :: p.bytes, 0x80, 0xbf⟩) rest
      else
        .error ⟨p.bytes.reverse, offset - p.bytes.length, .continuationByte⟩

/-- The characters of a row of bytes. -/
def decode (bytes : List UInt8) : Except DecodeError (List Char) :=
  decodeFrom 0 [] none bytes

end TailLint.Text.Utf8
