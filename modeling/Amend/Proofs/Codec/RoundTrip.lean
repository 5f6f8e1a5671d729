/-
What is written in an encoding is read back in it. An encoding has bytes for every text, or in the narrow
encodings for the texts whose characters are all below its bound; and bytes that were made of a text are
decoded to this text.
-/
import Amend.Proofs.Codec.Encoding
import Mathlib.Data.List.TakeWhile

namespace Amend.Codec

/-! ## UTF-16 -/

namespace Utf16

theorem unit_bytes {n : Nat} (h : n < 0x10000) :
    Order.little.unit (UInt8.ofNat (n % 256)) (UInt8.ofNat (n / 256)) = n := by
  simp only [Order.unit, UInt8.toNat_ofNat']
  omega

/-- The bytes of a character are read as this character. -/
theorem decodeFrom_encodeChar (offset : Nat) (c : Char) (rest : Bytes) :
    decodeFrom .little offset (encodeChar .little c ++ rest) =
      (decodeFrom .little (offset + (encodeChar .little c).length) rest).map (c :: ·) := by
  have hvalid := Utf8.toNat_lt c
  have hc : Char.ofNat c.toNat = c := Char.ofNat_toNat c
  unfold encodeChar
  simp only
  generalize c.toNat = n at hvalid hc
  by_cases hn : n < 0x10000
  · have hlow : isLow n = false := by simp [isLow]; omega
    have hhigh : isHigh n = false := by simp [isHigh]; omega
    rw [if_pos hn, decodeFrom.eq_def]
    simp [Order.bytes, unit_bytes hn, hlow, hhigh, hc]
  · -- the halves give back the ten bits each that they were made of
    have hhalf : 0xd800 + (n - 0x10000) / 0x400 < 0x10000 := by omega
    have hhalf' : 0xdc00 + (n - 0x10000) % 0x400 < 0x10000 := by omega
    have hlow : isLow (0xd800 + (n - 0x10000) / 0x400) = false := by simp [isLow]; omega
    have hhigh : isHigh (0xd800 + (n - 0x10000) / 0x400) = true := by simp [isHigh]; omega
    have hlow' : isLow (0xdc00 + (n - 0x10000) % 0x400) = true := by simp [isLow]; omega
    have hsum : 0x10000 + (0xd800 + (n - 0x10000) / 0x400 - 0xd800) * 0x400 +
        (0xdc00 + (n - 0x10000) % 0x400 - 0xdc00) = n := by omega
    rw [if_neg hn, decodeFrom.eq_def]
    simp only [Order.bytes, List.cons_append, List.nil_append, unit_bytes hhalf, unit_bytes hhalf', hlow, hhigh, hlow',
      Bool.false_eq_true, if_false, if_true, hsum, hc, List.length_cons, List.length_nil]

theorem decodeFrom_encode (cs : List Char) : ∀ offset,
    decodeFrom .little offset (cs.flatMap (encodeChar .little)) = .ok cs := by
  induction cs with
  | nil => intro offset; rfl
  | cons c cs ih =>
    intro offset
    rw [List.flatMap_cons, decodeFrom_encodeChar, ih]
    rfl

end Utf16

/-! ## Narrow encodings -/

section Narrow

variable {codec : String} {bound : Nat} {text : String} {bytes : Bytes}

/-- A text can be written in a narrow encoding exactly if all its characters are below the bound. -/
theorem encodeNarrow_eq_ok_iff : encodeNarrow codec bound text = .ok bytes ↔
    (∀ c ∈ text.toList, c.toNat < bound) ∧ bytes = text.toList.map fun c => UInt8.ofNat c.toNat := by
  have hall : text.toList.takeWhile (·.toNat < bound) = text.toList ↔ ∀ c ∈ text.toList, c.toNat < bound := by
    rw [List.takeWhile_eq_self_iff]
    simp
  have hdrop : text.toList.drop (text.toList.takeWhile (·.toNat < bound)).length = [] ↔
      text.toList.takeWhile (·.toNat < bound) = text.toList := by
    rw [List.drop_eq_nil_iff]
    constructor
    · exact fun h => (List.takeWhile_prefix _).eq_of_length_le h
    · exact fun h => Nat.le_of_eq (congrArg List.length h).symm
  unfold encodeNarrow
  simp only
  rw [← hall, ← hdrop]
  split
  · rename_i h
    simp [h, eq_comm]
  · rename_i h
    simp [h]

end Narrow

/-! ## All encodings -/

/-- The texts that an encoding has bytes for. -/
def Encoding.Has (encoding : Encoding) (text : String) : Prop :=
  match encoding with
  | .latin1 => ∀ c ∈ text.toList, c.toNat < 256
  | .ascii => ∀ c ∈ text.toList, c.toNat < 128
  | .utf8 | .utf8Marked | .utf16 | .utf16Little => True

theorem encode_ok_iff (encoding : Encoding) (text : String) :
    (∃ bytes, encoding.encode text = .ok bytes) ↔ encoding.Has text := by
  cases encoding with
  | latin1 | ascii => simp [Encoding.encode, Encoding.Has, encodeNarrow_eq_ok_iff]
  | utf8 | utf8Marked | utf16 | utf16Little => simp [Encoding.encode, Encoding.Has]

/-- The bytes of a text are decoded to it. -/
theorem decode_of_encode {encoding : Encoding} {text : String} {bytes : Bytes} (h : encoding.encode text = .ok bytes) :
    encoding.decode bytes = .ok text := by
  unfold Encoding.decode
  simp only [map_ofList_eq_ok]
  cases encoding with
  | utf8 =>
    cases h
    simp only [mapError_eq_ok]
    exact Utf8.decodeFrom_encode text.toList 0
  | utf8Marked =>
    cases h
    have hmark : utf8Mark ++ Utf8.encode text = ('\uFEFF' :: text.toList).flatMap Utf8.encodeChar := by
      rw [List.flatMap_cons, ← utf8Mark_eq]
      rfl
    simp only [mapError_eq_ok]
    rw [hmark, dropUtf8Mark_marked, Utf8.decodeFrom_encode]
  | latin1 =>
    obtain ⟨hlt, rfl⟩ := encodeNarrow_eq_ok_iff.1 h
    simp only [latin1_of_lt hlt]
  | ascii =>
    obtain ⟨hlt, rfl⟩ := encodeNarrow_eq_ok_iff.1 h
    simp only [mapError_eq_ok, ← encode_narrow hlt, decodeNarrow_narrow hlt]
  | utf16 =>
    cases h
    have hunits : decodeMarked16 (Utf16.Order.little.bytes 0xfeff ++ Utf16.encode .little text) =
        (Utf16.decodeFrom .little 2 (Utf16.encode .little text)).mapError .undecodable := rfl
    simp only [hunits, mapError_eq_ok]
    exact Utf16.decodeFrom_encode text.toList 2
  | utf16Little =>
    cases h
    simp only [mapError_eq_ok]
    exact Utf16.decodeFrom_encode text.toList 0

end Amend.Codec
