/-
UTF-16. A text is a row of units of two bytes each; a character beyond sixteen bits is a pair of
units, the high half first.
-/
import Amend.Codec.Fault

namespace Amend.Codec.Utf16

/-- Which byte of a unit comes first. -/
inductive Order where
  | little
  | big
  deriving DecidableEq, Repr

/-- The name of the encoding in faults. -/
def Order.codec : Order → String
  | .little => "utf-16-le"
  | .big => "utf-16-be"

/-- The unit of two bytes. -/
def Order.unit : Order → UInt8 → UInt8 → Nat
  | .little, a, b => a.toNat + 256 * b.toNat
  | .big, a, b => 256 * a.toNat + b.toNat

/-- The bytes of a unit. -/
def Order.bytes : Order → Nat → Bytes
  | .little, n => [UInt8.ofNat (n % 256), UInt8.ofNat (n / 256)]
  | .big, n => [UInt8.ofNat (n / 256), UInt8.ofNat (n % 256)]

/-- The high half of a pair. -/
def isHigh (unit : Nat) : Bool :=
  0xd800 ≤ unit && unit < 0xdc00

/-- The low half of a pair. -/
def isLow (unit : Nat) : Bool :=
  0xdc00 ≤ unit && unit < 0xe000

/-- The characters of some bytes, or the first fault. -/
def decodeFrom (order : Order) (offset : Nat) : Bytes → Except DecodeFault (List Char)
  | [] => .ok []
  | [a] => .error ⟨order.codec, offset, [a], .truncated⟩
  | a :: b :: rest =>
    let unit := order.unit a b
    let bad (bytes : Bytes) (reason : DecodeReason) : Except DecodeFault (List Char) :=
      .error ⟨order.codec, offset, bytes, reason⟩
    if isLow unit then bad [a, b] .illegalEncoding
    else if isHigh unit then
      match rest with
      | c :: d :: rest' =>
        let low := order.unit c d
        if isLow low then
          (decodeFrom order (offset + 4) rest').map
            (Char.ofNat (0x10000 + (unit - 0xd800) * 0x400 + (low - 0xdc00)) :: ·)
        else bad [a, b] .illegalSurrogate
      | _ => bad (a :: b :: rest) .unexpectedEnd
    else (decodeFrom order (offset + 2) rest).map (Char.ofNat unit :: ·)

/-- The bytes of a character. -/
def encodeChar (order : Order) (c : Char) : Bytes :=
  let n := c.toNat
  if n < 0x10000 then order.bytes n
  else order.bytes (0xd800 + (n - 0x10000) / 0x400) ++ order.bytes (0xdc00 + (n - 0x10000) % 0x400)

/-- The bytes of a text. -/
def encode (order : Order) (s : String) : Bytes :=
  s.toList.flatMap (encodeChar order)

end Amend.Codec.Utf16
