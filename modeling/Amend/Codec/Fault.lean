/-
Why bytes are not a text of an encoding, and why a text has no bytes in it.
-/
import Amend.Text.Hex
import Amend.Text.Quoted

namespace Amend.Codec

/-- Bytes as they are in a file. -/
abbrev Bytes := List UInt8

/-- What is wrong with a run of bytes. -/
inductive DecodeReason where
  | invalidStart
  | invalidContinuation
  | unexpectedEnd
  | truncated
  | illegalSurrogate
  | illegalEncoding
  | beyondAscii
  /-- What another codec says. -/
  | other (words : String)
  deriving DecidableEq, Repr

/-- The reason in words. -/
def DecodeReason.words : DecodeReason → String
  | .invalidStart => "invalid start byte"
  | .invalidContinuation => "invalid continuation byte"
  | .unexpectedEnd => "unexpected end of data"
  | .truncated => "truncated data"
  | .illegalSurrogate => "illegal UTF-16 surrogate"
  | .illegalEncoding => "illegal encoding"
  | .beyondAscii => "ordinal not in range(128)"
  | .other words => words

/-- Bytes that are no text: the encoding, the offset of the first bad byte, the bad bytes. -/
structure DecodeFault where
  codec : String
  offset : Nat
  bytes : Bytes
  reason : DecodeReason
  deriving DecidableEq, Repr

/-- The fault in words: one byte is shown, several only by their places. -/
def DecodeFault.message (e : DecodeFault) : String :=
  match e.bytes with
  | [b] =>
    let shown := Text.hex 2 b.toNat
    s!"'{e.codec}' codec can't decode byte 0x{shown} in position {e.offset}: {e.reason.words}"
  | bytes =>
    let last := e.offset + bytes.length - 1
    s!"'{e.codec}' codec can't decode bytes in position {e.offset}-{last}: {e.reason.words}"

/-- The fault when the bytes stand `n` places further on. -/
def DecodeFault.shift (e : DecodeFault) (n : Nat) : DecodeFault :=
  { e with offset := e.offset + n }

/-- Characters that an encoding does not have: the first one, its offset, how many there are in a
row, and the number below which characters can be encoded. -/
structure EncodeFault where
  codec : String
  offset : Nat
  first : Char
  count : Nat
  bound : Nat
  deriving DecidableEq, Repr

/-- The fault in words. -/
def EncodeFault.message (e : EncodeFault) : String :=
  let why := s!"ordinal not in range({e.bound})"
  if e.count = 1 then
    let shown := Text.numberEscape e.first
    s!"'{e.codec}' codec can't encode character '{shown}' in position {e.offset}: {why}"
  else
    let last := e.offset + e.count - 1
    s!"'{e.codec}' codec can't encode characters in position {e.offset}-{last}: {why}"

/-- A fault that a codec has in its own way, with the name of its kind. -/
structure CodecFault where
  kind : String
  message : String
  deriving DecidableEq, Repr

end Amend.Codec
