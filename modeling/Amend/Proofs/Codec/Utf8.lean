/-
UTF-8 is read back: decoding the bytes of a text gives the text. Each lead byte is shown to ask for
what the bytes of its character have, so one character is read off the front at a time.
-/
import Amend.Codec.Utf8
import Mathlib.Data.List.Basic

namespace Amend.Codec.Utf8

/-! ## Lead bytes -/

theorem lead?_one {b : Nat} (h : b < 0x80) : lead? b = some ⟨0, b, 0x80, 0xbf⟩ :=
  if_pos h

theorem lead?_two {b : Nat} (h : 0xc2 ≤ b) (h' : b < 0xe0) : lead? b = some ⟨1, b - 0xc0, 0x80, 0xbf⟩ := by
  unfold lead?
  rw [if_neg (by omega), if_neg (by omega), if_pos h']

/-- A lead byte of three: the bits it gives, and the range of the next byte, which is narrower for
the first of them and for the one before the halves of pairs. -/
theorem lead?_three {b : Nat} (h : 0xe0 ≤ b) (h' : b < 0xf0) :
    ∃ low high, lead? b = some ⟨2, b - 0xe0, low, high⟩ ∧ (low = if b = 0xe0 then 0xa0 else 0x80) ∧
      (high = if b = 0xed then 0x9f else 0xbf) := by
  unfold lead?
  rw [if_neg (by omega), if_neg (by omega), if_neg (by omega)]
  by_cases he : b = 0xe0
  · subst he; exact ⟨0xa0, 0xbf, rfl, rfl, rfl⟩
  · rw [if_neg he]
    by_cases hd : b = 0xed
    · subst hd; exact ⟨0x80, 0x9f, rfl, rfl, rfl⟩
    · rw [if_neg hd, if_pos h']
      exact ⟨0x80, 0xbf, rfl, by rw [if_neg he], by rw [if_neg hd]⟩

/-- A lead byte of four. -/
theorem lead?_four {b : Nat} (h : 0xf0 ≤ b) (h' : b ≤ 0xf4) :
    ∃ low high, lead? b = some ⟨3, b - 0xf0, low, high⟩ ∧ (low = if b = 0xf0 then 0x90 else 0x80) ∧
      (high = if b = 0xf4 then 0x8f else 0xbf) := by
  unfold lead?
  rw [if_neg (by omega), if_neg (by omega), if_neg (by omega), if_neg (by omega), if_neg (by omega),
    if_neg (by omega)]
  by_cases he : b = 0xf0
  · subst he; exact ⟨0x90, 0xbf, rfl, rfl, rfl⟩
  · rw [if_neg he]
    by_cases hd : b = 0xf4
    · subst hd; exact ⟨0x80, 0x8f, rfl, rfl, rfl⟩
    · rw [if_pos (by omega)]
      exact ⟨0x80, 0xbf, rfl, by rw [if_neg he], by rw [if_neg hd]⟩

/-! ## One character -/

theorem tail_cons {number good low high follow x : Nat} {b : UInt8} {rest : Bytes} (hx : b.toNat = x) (hl : low ≤ x)
    (hh : x ≤ high) : tail number good low high (follow + 1) (b :: rest) =
      tail (number * 64 + (x - 0x80)) (good + 1) 0x80 0xbf follow rest := by
  subst hx
  simp only [tail]
  rw [if_pos (by simp [hl, hh])]

theorem toNat_cont (bits : Nat) : (UInt8.ofNat (0x80 + bits % 64)).toNat = 0x80 + bits % 64 := by
  rw [UInt8.toNat_ofNat']; omega

theorem toNat_lt (c : Char) : c.toNat < 0xd800 ∨ 0xdfff < c.toNat ∧ c.toNat < 0x110000 :=
  c.valid

/-- The bytes of a character are read as this character. -/
theorem head_encodeChar (c : Char) (rest : Bytes) :
    ∃ b more, encodeChar c = b :: more ∧ head b (more ++ rest) = .char c (more.length + 1) := by
  have hvalid := toNat_lt c
  have hc : Char.ofNat c.toNat = c := Char.ofNat_toNat c
  unfold encodeChar
  simp only
  generalize c.toNat = n at hvalid hc
  by_cases h1 : n < 0x80
  · have hb : (UInt8.ofNat n).toNat = n := by rw [UInt8.toNat_ofNat']; omega
    rw [if_pos h1]
    refine ⟨_, [], rfl, ?_⟩
    simp only [head, hb, lead?_one h1, tail, hc, List.length_nil]
  rw [if_neg h1]
  by_cases h2 : n < 0x800
  · have hb : (UInt8.ofNat (0xc0 + n / 0x40)).toNat = 0xc0 + n / 0x40 := by rw [UInt8.toNat_ofNat']; omega
    have hn : (0xc0 + n / 0x40 - 0xc0) * 64 + (0x80 + n % 64 - 0x80) = n := by omega
    rw [if_pos h2]
    refine ⟨_, [_], rfl, ?_⟩
    simp only [head, hb, lead?_two (b := 0xc0 + n / 0x40) (by omega) (by omega), List.cons_append]
    rw [tail_cons (toNat_cont n) (by omega) (by omega), hn]
    simp only [tail, hc, List.length_singleton]
  rw [if_neg h2]
  by_cases h3 : n < 0x10000
  · have hb : (UInt8.ofNat (0xe0 + n / 0x1000)).toNat = 0xe0 + n / 0x1000 := by rw [UInt8.toNat_ofNat']; omega
    obtain ⟨low, high, hlead, hlow, hhigh⟩ := lead?_three (b := 0xe0 + n / 0x1000) (by omega) (by omega)
    have hn : ((0xe0 + n / 0x1000 - 0xe0) * 64 + (0x80 + n / 0x40 % 64 - 0x80)) * 64 + (0x80 + n % 64 - 0x80) = n := by
      omega
    rw [if_pos h3]
    refine ⟨_, [_, _], rfl, ?_⟩
    simp only [head, hb, hlead, List.cons_append]
    -- the narrower ranges leave out what two bytes have, and the halves of pairs
    rw [tail_cons (toNat_cont (n / 0x40)) (by split at hlow <;> omega) (by split at hhigh <;> omega),
      tail_cons (toNat_cont n) (by omega) (by omega), hn]
    simp only [tail, hc, List.length_cons, List.length_nil]
  · have hb : (UInt8.ofNat (0xf0 + n / 0x40000)).toNat = 0xf0 + n / 0x40000 := by rw [UInt8.toNat_ofNat']; omega
    obtain ⟨low, high, hlead, hlow, hhigh⟩ := lead?_four (b := 0xf0 + n / 0x40000) (by omega) (by omega)
    have hn : (((0xf0 + n / 0x40000 - 0xf0) * 64 + (0x80 + n / 0x1000 % 64 - 0x80)) * 64 +
        (0x80 + n / 0x40 % 64 - 0x80)) * 64 + (0x80 + n % 64 - 0x80) = n := by omega
    rw [if_neg h3]
    refine ⟨_, [_, _, _], rfl, ?_⟩
    simp only [head, hb, hlead, List.cons_append]
    rw [tail_cons (toNat_cont (n / 0x1000)) (by split at hlow <;> omega) (by split at hhigh <;> omega),
      tail_cons (toNat_cont (n / 0x40)) (by omega) (by omega), tail_cons (toNat_cont n) (by omega) (by omega), hn]
    simp only [tail, hc, List.length_cons, List.length_nil]

/-! ## Texts -/

/-- Bytes that belong to the character before are passed over. -/
theorem decodeFrom_skip (more rest : Bytes) : ∀ offset,
    decodeFrom offset more.length (more ++ rest) = decodeFrom (offset + more.length) 0 rest := by
  induction more with
  | nil => intro offset; rfl
  | cons b more ih =>
    intro offset
    rw [List.length_cons, List.cons_append, decodeFrom, ih]
    congr 1
    omega

theorem decodeFrom_encodeChar (offset : Nat) (c : Char) (rest : Bytes) :
    decodeFrom offset 0 (encodeChar c ++ rest) =
      (decodeFrom (offset + (encodeChar c).length) 0 rest).map (c :: ·) := by
  obtain ⟨b, more, he, hhead⟩ := head_encodeChar c rest
  rw [he, List.cons_append, decodeFrom]
  simp only [hhead, Nat.add_sub_cancel, decodeFrom_skip]
  rw [List.length_cons, Nat.add_assoc, Nat.add_comm 1]

theorem decodeFrom_encode (cs : List Char) : ∀ offset, decodeFrom offset 0 (cs.flatMap encodeChar) = .ok cs := by
  induction cs with
  | nil => intro offset; rfl
  | cons c cs ih =>
    intro offset
    rw [List.flatMap_cons, decodeFrom_encodeChar, ih]
    rfl

end Amend.Codec.Utf8
