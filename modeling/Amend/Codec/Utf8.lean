/-
UTF-8. A lead byte fixes how many bytes follow and the range of the first of them; a sequence that
breaks off is refused as far as it went well.
-/
import Amend.Codec.Fault

namespace Amend.Codec.Utf8

/-- What a lead byte asks for: how many bytes follow, the bits it gives, and the range of the byte
after it. -/
structure Lead where
  follow : Nat
  bits : Nat
  low : Nat
  high : Nat

/-- The demands of a byte that may start a sequence. -/
def lead? (b : Nat) : Option Lead :=
  if b < 0x80 then some ⟨0, b, 0x80, 0xbf⟩
  else if b < 0xc2 then none
  else if b < 0xe0 then some ⟨1, b - 0xc0, 0x80, 0xbf⟩
  else if b = 0xe0 then some ⟨2, 0, 0xa0, 0xbf⟩
  else if b = 0xed then some ⟨2, 0xd, 0x80, 0x9f⟩
  else if b < 0xf0 then some ⟨2, b - 0xe0, 0x80, 0xbf⟩
  else if b = 0xf0 then some ⟨3, 0, 0x90, 0xbf⟩
  else if b < 0xf4 then some ⟨3, b - 0xf0, 0x80, 0xbf⟩
  else if b = 0xf4 then some ⟨3, 4, 0x80, 0x8f⟩
  else none

/-- How the bytes after a lead byte go on. -/
inductive Tail where
  /-- All are there: the character's number. -/
  | whole (number : Nat)
  /-- The first bad byte comes after `good` good ones. -/
  | broken (good : Nat)
  /-- The bytes end after `good` good ones. -/
  | short (good : Nat)

/-- Reads `follow` continuation bytes, the first of them in a range of its own. -/
def tail (number good low high : Nat) : Nat → Bytes → Tail
  | 0, _ => .whole number
  | _ + 1, [] => .short good
  | follow + 1, b :: rest =>
    if low ≤ b.toNat && b.toNat ≤ high then
      tail (number * 64 + (b.toNat - 0x80)) (good + 1) 0x80 0xbf follow rest
    else .broken good

/-- What stands at the start of some bytes. -/
inductive Head where
  | char (c : Char) (length : Nat)
  | bad (length : Nat) (reason : DecodeReason)

/-- The character at the start of some bytes. -/
def head (b : UInt8) (rest : Bytes) : Head :=
  match lead? b.toNat with
  | none => .bad 1 .invalidStart
  | some lead =>
    match tail lead.bits 1 lead.low lead.high lead.follow rest with
    | .whole number => .char (Char.ofNat number) (lead.follow + 1)
    | .broken good => .bad good .invalidContinuation
    | .short good => .bad good .unexpectedEnd

/-- The characters of some bytes, or the first fault. `skip` bytes belong to the character before. -/
def decodeFrom (offset : Nat) : Nat → Bytes → Except DecodeFault (List Char)
  | _, [] => .ok []
  | skip + 1, _ :: rest => decodeFrom (offset + 1) skip rest
  | 0, b :: rest =>
    match head b rest with
    | .char c length => (decodeFrom (offset + 1) (length - 1) rest).map (c :: ·)
    | .bad length reason => .error ⟨"utf-8", offset, (b :: rest).take length, reason⟩

/-- The text of some bytes. -/
def decode (bytes : Bytes) : Except DecodeFault String :=
  (decodeFrom 0 0 bytes).map String.ofList

/-- The bytes of a character. -/
def encodeChar (c : Char) : Bytes :=
  let n := c.toNat
  let cont (bits : Nat) : UInt8 := UInt8.ofNat (0x80 + bits % 64)
  if n < 0x80 then [UInt8.ofNat n]
  else if n < 0x800 then [UInt8.ofNat (0xc0 + n / 0x40), cont n]
  else if n < 0x10000 then [UInt8.ofNat (0xe0 + n / 0x1000), cont (n / 0x40), cont n]
  else [UInt8.ofNat (0xf0 + n / 0x40000), cont (n / 0x1000), cont (n / 0x40), cont n]

/-- The bytes of a text. -/
def encode (s : String) : Bytes :=
  s.toList.flatMap encodeChar

end Amend.Codec.Utf8
