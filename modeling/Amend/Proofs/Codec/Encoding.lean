/-
What encodings make of UTF-8. A text that was written in UTF-8 is read back in another encoding only
by luck: with a mark to drop, if it does not start with that mark; in the narrow encodings, if it is
all ASCII; and in UTF-16 only if there is nothing to read.
-/
import Amend.Codec.Encoding
import Amend.Proofs.Codec.Utf8

namespace Amend.Codec

/-! ## UTF-16 -/

namespace Utf16

theorem little_bytes (a b : UInt8) : Order.little.bytes (Order.little.unit a b) = [a, b] := by
  have ha := a.toNat_lt
  have hlow : (a.toNat + 256 * b.toNat) % 256 = a.toNat := by omega
  have hhigh : (a.toNat + 256 * b.toNat) / 256 = b.toNat := by omega
  simp only [Order.unit, Order.bytes, hlow, hhigh, UInt8.ofNat_toNat]

theorem toNat_ofNat {n : Nat} (h : n < 0xd800 ∨ 0xdfff < n ∧ n < 0x110000) : (Char.ofNat n).toNat = n := by
  unfold Char.ofNat
  rw [dif_pos h]
  rfl

theorem unit_lt (a b : UInt8) : Order.little.unit a b < 0x10000 := by
  have ha := a.toNat_lt
  have hb := b.toNat_lt
  simp only [Order.unit]
  omega

theorem encodeChar_unit {n : Nat} (h : n < 0xd800 ∨ 0xdfff < n) (hn : n < 0x10000) :
    encodeChar .little (Char.ofNat n) = Order.little.bytes n := by
  unfold encodeChar
  simp only [toNat_ofNat (n := n) (by omega)]
  rw [if_pos hn]

theorem encodeChar_pair {high low : Nat} (hh : isHigh high = true) (hl : isLow low = true) :
    encodeChar .little (Char.ofNat (0x10000 + (high - 0xd800) * 0x400 + (low - 0xdc00))) =
      Order.little.bytes high ++ Order.little.bytes low := by
  simp only [isHigh, isLow, Bool.and_eq_true, decide_eq_true_eq] at hh hl
  have h1 : 0xd800 + (0x10000 + (high - 0xd800) * 0x400 + (low - 0xdc00) - 0x10000) / 0x400 = high := by omega
  have h2 : 0xdc00 + (0x10000 + (high - 0xd800) * 0x400 + (low - 0xdc00) - 0x10000) % 0x400 = low := by omega
  unfold encodeChar
  simp only [toNat_ofNat (n := 0x10000 + (high - 0xd800) * 0x400 + (low - 0xdc00)) (by omega)]
  rw [if_neg (by omega), h1, h2]

/-- Bytes that are read as UTF-16 are the bytes of what was read. -/
theorem decodeFrom_ok {offset : Nat} {bytes : Bytes} {cs : List Char}
    (h : decodeFrom .little offset bytes = .ok cs) : bytes = cs.flatMap (encodeChar .little) := by
  fun_induction decodeFrom .little offset bytes generalizing cs with
  | case1 => cases h; rfl
  | case4 =>
    -- a pair of units
    rename_i offset a b unit hlow hhigh c d rest low hlow' ih
    rcases hd : decodeFrom .little (offset + 4) rest with e | cs'
    · rw [hd] at h; cases h
    · rw [hd] at h; cases h
      rw [List.flatMap_cons, ← ih hd, encodeChar_pair hhigh hlow', little_bytes, little_bytes]
      rfl
  | case7 =>
    -- a unit of its own
    rename_i offset a b rest unit hlow hhigh ih
    rcases hd : decodeFrom .little (offset + 2) rest with e | cs'
    · rw [hd] at h; cases h
    · rw [hd] at h; cases h
      have hvalid : unit < 0xd800 ∨ 0xdfff < unit := by
        simp only [isHigh, isLow, Bool.and_eq_true, decide_eq_true_eq, not_and] at hlow hhigh
        omega
      rw [List.flatMap_cons, ← ih hd, encodeChar_unit hvalid (unit_lt a b), little_bytes]
      rfl
  | _ => cases h

/-! ## UTF-8 and UTF-16 have no text in common -/

/-- If what `f` makes of each character measures at most what `g` makes of it, and the whole measures
the same, then each character does. -/
theorem measure_eq_of_flatMap {f g : Char → Bytes} {m : Bytes → Nat}
    (hadd : ∀ a b, m (a ++ b) = m a + m b) {cs : List Char} (hle : ∀ c ∈ cs, m (f c) ≤ m (g c))
    (h : m (cs.flatMap f) = m (cs.flatMap g)) : ∀ c ∈ cs, m (f c) = m (g c) := by
  have htotal : ∀ cs : List Char, (∀ c ∈ cs, m (f c) ≤ m (g c)) → m (cs.flatMap f) ≤ m (cs.flatMap g) := by
    intro cs hle
    induction cs with
    | nil => exact Nat.le_refl _
    | cons c cs ih =>
      rw [List.flatMap_cons, List.flatMap_cons, hadd, hadd]
      exact Nat.add_le_add (hle c (List.mem_cons_self ..)) (ih fun c' hc' => hle c' (List.mem_cons_of_mem _ hc'))
  induction cs with
  | nil => simp
  | cons c cs ih =>
    have hhead := hle c (List.mem_cons_self ..)
    have htail := htotal cs fun c' hc' => hle c' (List.mem_cons_of_mem _ hc')
    rw [List.flatMap_cons, List.flatMap_cons, hadd, hadd] at h
    intro c' hc'
    rcases List.mem_cons.1 hc' with rfl | hc'
    · omega
    · exact ih (fun c' hc' => hle c' (List.mem_cons_of_mem _ hc')) (by omega) c' hc'

theorem ofNat_ne_zero {x : Nat} (h : 0 < x) (h' : x < 256) : UInt8.ofNat x ≠ 0 := by
  intro he
  have hx := congrArg UInt8.toNat he
  rw [UInt8.toNat_ofNat', Nat.mod_eq_of_lt h'] at hx
  exact absurd hx (Nat.ne_of_gt h)

/-- Beyond ASCII no byte of UTF-8 is zero. -/
theorem zero_not_mem_encodeChar (c : Char) (h : 0x80 ≤ c.toNat) : (0 : UInt8) ∉ Utf8.encodeChar c := by
  have hvalid := Utf8.toNat_lt c
  have hcont : ∀ bits, UInt8.ofNat (0x80 + bits % 64) ≠ 0 := fun bits => ofNat_ne_zero (by omega) (by omega)
  unfold Utf8.encodeChar
  simp only
  generalize c.toNat = n at h hvalid
  rw [if_neg (by omega : ¬n < 0x80)]
  intro hm
  split at hm
  · rcases List.mem_pair.1 hm with he | he
    · exact ofNat_ne_zero (by omega) (by omega) he.symm
    · exact hcont _ he.symm
  · split at hm
    · simp only [List.mem_cons, List.not_mem_nil, or_false] at hm
      rcases hm with he | he | he
      · exact ofNat_ne_zero (by omega) (by omega) he.symm
      · exact hcont _ he.symm
      · exact hcont _ he.symm
    · simp only [List.mem_cons, List.not_mem_nil, or_false] at hm
      rcases hm with he | he | he | he
      · exact ofNat_ne_zero (by omega) (by omega) he.symm
      · exact hcont _ he.symm
      · exact hcont _ he.symm
      · exact hcont _ he.symm

/-- Every character has at least as many zero bytes in UTF-16 as in UTF-8, and an ASCII character has
one more. -/
theorem count_zero (c : Char) :
    (Utf8.encodeChar c).count 0 + (if c.toNat < 0x80 then 1 else 0) ≤ (encodeChar .little c).count 0 := by
  by_cases h : c.toNat < 0x80
  · have h8 : Utf8.encodeChar c = [UInt8.ofNat c.toNat] := if_pos h
    have h16 : encodeChar .little c = [UInt8.ofNat c.toNat, 0] := by
      have hlow : c.toNat % 256 = c.toNat := by omega
      have hhigh : c.toNat / 256 = 0 := by omega
      unfold encodeChar
      simp only
      rw [if_pos (by omega)]
      simp [Order.bytes, hlow, hhigh]
    rw [if_pos h, h8, h16, List.count_cons, List.count_cons, List.count_cons]
    simp [Nat.add_comm]
  · rw [if_neg h, List.count_eq_zero_of_not_mem (zero_not_mem_encodeChar c (by omega))]
    exact Nat.zero_le _

/-- Beyond ASCII, a character has at least as many bytes in UTF-8 as in UTF-16, and it has more unless
it takes two bytes or four. -/
theorem length_encodeChar (c : Char) (h : 0x80 ≤ c.toNat) :
    (encodeChar .little c).length + (if 0x800 ≤ c.toNat ∧ c.toNat < 0x10000 then 1 else 0) =
      (Utf8.encodeChar c).length := by
  unfold encodeChar Utf8.encodeChar
  simp only
  generalize c.toNat = n at h ⊢
  rw [if_neg (by omega : ¬n < 0x80)]
  by_cases h2 : n < 0x800
  · rw [if_pos (by omega), if_pos h2, if_neg (by omega)]; rfl
  · rw [if_neg h2]
    by_cases h3 : n < 0x10000
    · rw [if_pos h3, if_pos h3, if_pos (by omega)]; rfl
    · rw [if_neg h3, if_neg h3, if_neg (by omega)]; simp [Order.bytes]

/-- The second byte tells UTF-8 of two or four bytes from UTF-16. -/
theorem second_ne (c : Char) (h : 0x80 ≤ c.toNat) (h' : c.toNat < 0x800 ∨ 0x10000 ≤ c.toNat) :
    ∃ b b' : UInt8, (Utf8.encodeChar c)[1]? = some b ∧ (encodeChar .little c)[1]? = some b' ∧ b ≠ b' := by
  have hvalid := Utf8.toNat_lt c
  unfold encodeChar Utf8.encodeChar
  simp only
  generalize c.toNat = n at h h' hvalid
  rw [if_neg (by omega : ¬n < 0x80)]
  by_cases h2 : n < 0x800
  · rw [if_pos h2, if_pos (by omega)]
    refine ⟨_, _, rfl, rfl, fun he => ?_⟩
    have hx := congrArg UInt8.toNat he
    rw [Utf8.toNat_cont, UInt8.toNat_ofNat'] at hx
    omega
  · rw [if_neg h2, if_neg (by omega), if_neg (by omega)]
    refine ⟨_, _, rfl, rfl, fun he => ?_⟩
    have hx := congrArg UInt8.toNat he
    rw [Utf8.toNat_cont, UInt8.toNat_ofNat'] at hx
    omega

/-- No text but the empty one has the same bytes in UTF-8 and in UTF-16. -/
theorem encode_ne {cs : List Char} (h : cs.flatMap Utf8.encodeChar = cs.flatMap (encodeChar .little)) : cs = [] := by
  rcases cs with _ | ⟨c, rest⟩
  · rfl
  -- zero bytes: no character is ASCII
  have hzero := measure_eq_of_flatMap (m := fun bytes => bytes.count 0) (fun _ _ => List.count_append)
    (fun c _ => Nat.le_trans (Nat.le_add_right _ _) (count_zero c)) (congrArg (fun bytes => bytes.count 0) h)
  have hwide : ∀ c' ∈ c :: rest, 0x80 ≤ c'.toNat := by
    intro c' hc'
    have hle := count_zero c'
    have heq := hzero c' hc'
    by_contra hlt
    rw [if_pos (by omega)] at hle
    omega
  -- lengths: no character takes three bytes
  have hlength := measure_eq_of_flatMap (m := List.length) (fun _ _ => List.length_append)
    (fun c' hc' => by have := length_encodeChar c' (hwide c' hc'); omega) (congrArg List.length h.symm)
  have hc : c ∈ c :: rest := List.mem_cons_self ..
  have hpair : c.toNat < 0x800 ∨ 0x10000 ≤ c.toNat := by
    have hsum := length_encodeChar c (hwide c hc)
    have heq := hlength c hc
    by_contra hno
    rw [if_pos (by omega)] at hsum
    omega
  obtain ⟨b, b', hb, hb', hne⟩ := second_ne c (hwide c hc) hpair
  have hsecond := congrArg (·[1]?) h
  simp only [List.flatMap_cons] at hsecond
  rw [List.getElem?_append_left (List.getElem?_eq_some_iff.1 hb).1,
    List.getElem?_append_left (List.getElem?_eq_some_iff.1 hb').1, hb, hb'] at hsecond
  exact absurd (Option.some.inj hsecond) hne

end Utf16

/-! ## Reading UTF-8 in an encoding -/

/-- The texts that an encoding reads back when they were written in UTF-8. -/
def Encoding.ReadsBack (encoding : Encoding) (text : String) : Prop :=
  match encoding with
  | .utf8 => True
  | .utf8Marked => text.toList.head? ≠ some '\uFEFF'
  | .latin1 | .ascii => ∀ c ∈ text.toList, c.toNat < 128
  | .utf16 | .utf16Little => text = ""

theorem ofList_eq_iff (cs : List Char) (text : String) : String.ofList cs = text ↔ cs = text.toList := by
  constructor
  · rintro rfl
    exact String.toList_ofList.symm
  · rintro rfl
    exact String.ofList_toList

theorem map_ofList_eq_ok {ε : Type} (r : Except ε (List Char)) (text : String) :
    r.map String.ofList = .ok text ↔ r = .ok text.toList := by
  cases r with
  | error e => simp [Except.map]
  | ok cs => simp [Except.map, ofList_eq_iff]

theorem mapError_eq_ok {ε ε' α : Type} (f : ε → ε') (r : Except ε α) (a : α) : r.mapError f = .ok a ↔ r = .ok a := by
  cases r <;> simp [Except.mapError]

/-! ### Marks -/

theorem utf8Mark_eq : utf8Mark = Utf8.encodeChar '\uFEFF' := by decide

/-- A mark at the start is dropped. -/
theorem dropUtf8Mark_marked (rest : List Char) :
    dropUtf8Mark (('\uFEFF' :: rest).flatMap Utf8.encodeChar) = rest.flatMap Utf8.encodeChar := by
  have hprefix : utf8Mark.isPrefixOf (('\uFEFF' :: rest).flatMap Utf8.encodeChar) = true := by
    rw [List.isPrefixOf_iff_prefix, List.flatMap_cons, ← utf8Mark_eq]
    exact List.prefix_append ..
  unfold dropUtf8Mark
  rw [if_pos hprefix, List.flatMap_cons, ← utf8Mark_eq]
  rfl

/-- Without a mark at the start nothing is dropped: no text has bytes that break off in one. -/
theorem dropUtf8Mark_unmarked {cs : List Char} (h : cs.head? ≠ some '\uFEFF') :
    dropUtf8Mark (cs.flatMap Utf8.encodeChar) = cs.flatMap Utf8.encodeChar := by
  have hdecode := Utf8.decodeFrom_encode cs 0
  have hno : ¬utf8Mark.isPrefixOf (cs.flatMap Utf8.encodeChar) = true := by
    intro hp
    obtain ⟨rest, hrest⟩ := List.isPrefixOf_iff_prefix.1 hp
    rw [← hrest, utf8Mark_eq, Utf8.decodeFrom_encodeChar] at hdecode
    cases hd : Utf8.decodeFrom (0 + (Utf8.encodeChar '\uFEFF').length) 0 rest with
    | error e => rw [hd] at hdecode; cases hdecode
    | ok cs' =>
      rw [hd] at hdecode; cases hdecode
      exact h rfl
  unfold dropUtf8Mark
  rw [if_neg hno]
  split
  · rename_i hp
    generalize cs.flatMap Utf8.encodeChar = bytes at hdecode hno hp
    rw [List.isPrefixOf_iff_prefix, utf8Mark] at hp
    simp only [List.prefix_cons_iff, List.prefix_nil] at hp
    rcases hp with rfl | ⟨_, rfl, rfl | ⟨_, rfl, rfl | ⟨_, rfl, rfl⟩⟩⟩
    · rfl
    · cases hdecode
    · cases hdecode
    · exact absurd rfl hno
  · rfl

/-! ### Narrow encodings -/

theorem length_pos_encodeChar (c : Char) : 1 ≤ (Utf8.encodeChar c).length := by
  obtain ⟨b, more, he, -⟩ := Utf8.head_encodeChar c []
  rw [he]
  exact Nat.le_add_left 1 _

/-- A text with as many bytes as characters is all ASCII. -/
theorem narrow_of_length {cs : List Char} (h : (cs.flatMap Utf8.encodeChar).length = cs.length) :
    ∀ c ∈ cs, c.toNat < 128 := by
  have hone : (cs.flatMap fun _ => [(0 : UInt8)]).length = cs.length := by simp
  intro c hc
  have hlength := Utf16.measure_eq_of_flatMap (m := List.length) (f := fun _ => [(0 : UInt8)])
    (fun _ _ => List.length_append) (fun c _ => length_pos_encodeChar c) (hone.trans h.symm) c hc
  by_contra hno
  have hwide := Utf16.length_encodeChar c (by omega)
  have htwo : 2 ≤ (Utf16.encodeChar .little c).length := by
    unfold Utf16.encodeChar
    simp only
    split <;> simp [Utf16.Order.bytes]
  simp only [List.length_singleton] at hlength
  omega

theorem encode_narrow {cs : List Char} (h : ∀ c ∈ cs, c.toNat < 128) :
    cs.flatMap Utf8.encodeChar = cs.map fun c => UInt8.ofNat c.toNat := by
  induction cs with
  | nil => rfl
  | cons c cs ih =>
    have hc : Utf8.encodeChar c = [UInt8.ofNat c.toNat] := if_pos (h c (List.mem_cons_self ..))
    rw [List.flatMap_cons, ih fun c' hc' => h c' (List.mem_cons_of_mem _ hc'), hc]
    rfl

theorem toNat_ofNat_narrow {c : Char} (h : c.toNat < 128) : (UInt8.ofNat c.toNat).toNat = c.toNat := by
  rw [UInt8.toNat_ofNat']
  omega

theorem latin1_of_lt {cs : List Char} (h : ∀ c ∈ cs, c.toNat < 256) :
    (cs.map fun c => UInt8.ofNat c.toNat).map (fun b => Char.ofNat b.toNat) = cs := by
  rw [List.map_map]
  calc cs.map ((fun b => Char.ofNat b.toNat) ∘ fun c => UInt8.ofNat c.toNat)
      = cs.map id := List.map_congr_left fun c hc => by
        have hbyte : (UInt8.ofNat c.toNat).toNat = c.toNat := by
          rw [UInt8.toNat_ofNat', Nat.mod_eq_of_lt (h c hc)]
        rw [Function.comp, hbyte, Char.ofNat_toNat, id]
    _ = cs := List.map_id cs

theorem latin1_narrow {cs : List Char} (h : ∀ c ∈ cs, c.toNat < 128) :
    (cs.flatMap Utf8.encodeChar).map (fun b => Char.ofNat b.toNat) = cs := by
  rw [encode_narrow h]
  exact latin1_of_lt fun c hc => Nat.lt_trans (h c hc) (by decide)

theorem length_decodeNarrow {bytes : Bytes} : ∀ {offset : Nat} {cs : List Char},
    decodeNarrow offset bytes = .ok cs → cs.length = bytes.length := by
  induction bytes with
  | nil => intro offset cs h; cases h; rfl
  | cons b rest ih =>
    intro offset cs h
    unfold decodeNarrow at h
    split at h
    · cases hd : decodeNarrow (offset + 1) rest with
      | error e => rw [hd] at h; cases h
      | ok cs' =>
        rw [hd] at h; cases h
        rw [List.length_cons, List.length_cons, ih hd]
    · cases h

theorem decodeNarrow_narrow {cs : List Char} (h : ∀ c ∈ cs, c.toNat < 128) : ∀ offset,
    decodeNarrow offset (cs.flatMap Utf8.encodeChar) = .ok cs := by
  rw [encode_narrow h]
  induction cs with
  | nil => intro offset; rfl
  | cons c cs ih =>
    intro offset
    have hc := h c (List.mem_cons_self ..)
    rw [List.map_cons, decodeNarrow, toNat_ofNat_narrow hc, if_pos hc, Char.ofNat_toNat,
      ih fun c' hc' => h c' (List.mem_cons_of_mem _ hc')]
    rfl

/-! ### UTF-16 -/

/-- No byte of UTF-8 is one of those that a mark of UTF-16 starts with. -/
theorem first_encodeChar (c : Char) : ∃ b more, Utf8.encodeChar c = b :: more ∧ b.toNat < 0xf5 := by
  have hvalid := Utf8.toNat_lt c
  unfold Utf8.encodeChar
  simp only
  generalize c.toNat = n at hvalid
  split
  · exact ⟨_, _, rfl, by rw [UInt8.toNat_ofNat']; omega⟩
  · split
    · exact ⟨_, _, rfl, by rw [UInt8.toNat_ofNat']; omega⟩
    · split
      · exact ⟨_, _, rfl, by rw [UInt8.toNat_ofNat']; omega⟩
      · exact ⟨_, _, rfl, by rw [UInt8.toNat_ofNat']; omega⟩

/-- UTF-8 has no mark of UTF-16, so there must be nothing to read. -/
theorem decodeMarked16_encode {cs cs' : List Char} (h : decodeMarked16 (cs.flatMap Utf8.encodeChar) = .ok cs') :
    cs = [] := by
  rcases cs with _ | ⟨c, rest⟩
  · rfl
  obtain ⟨b, more, he, hb⟩ := first_encodeChar c
  rw [List.flatMap_cons, he, List.cons_append] at h
  unfold decodeMarked16 at h
  simp only at h
  split at h
  · rename_i heq
    obtain rfl := (List.cons.inj heq).1
    exact absurd hb (by decide)
  · rename_i heq
    obtain rfl := (List.cons.inj heq).1
    exact absurd hb (by decide)
  · rcases hd : Utf16.decodeFrom .little 0 (b :: (more ++ rest.flatMap Utf8.encodeChar)) with e | found
    · rw [hd] at h; cases h
    · have hbytes := Utf16.decodeFrom_ok hd
      rw [hd] at h
      simp only [Except.mapError, bind, Except.bind] at h
      split at h
      · rename_i hempty
        rw [List.isEmpty_iff.1 hempty] at hbytes
        cases hbytes
      · cases h

/-- A text in UTF-8 is read back in an encoding exactly if it is one of those that are. -/
theorem decode_utf8_iff (encoding : Encoding) (text : String) :
    encoding.decode (Utf8.encode text) = .ok text ↔ encoding.ReadsBack text := by
  unfold Encoding.decode Utf8.encode
  simp only [map_ofList_eq_ok]
  have hempty : text = "" ↔ text.toList = [] :=
    eq_comm.trans ((ofList_eq_iff [] text).trans eq_comm)
  cases encoding with
  | utf8 => simp [mapError_eq_ok, Utf8.decodeFrom_encode, Encoding.ReadsBack]
  | utf8Marked =>
    simp only [mapError_eq_ok, Encoding.ReadsBack]
    by_cases h : text.toList.head? = some '\uFEFF'
    · obtain ⟨rest, hrest⟩ : ∃ rest, text.toList = '\uFEFF' :: rest := by
        rcases hcs : text.toList with _ | ⟨c, rest⟩
        · rw [hcs] at h; cases h
        · rw [hcs] at h; cases h
          exact ⟨rest, rfl⟩
      rw [hrest, dropUtf8Mark_marked, Utf8.decodeFrom_encode]
      simp
    · rw [dropUtf8Mark_unmarked h, Utf8.decodeFrom_encode]
      simp [h]
  | latin1 =>
    simp only [Except.ok.injEq, Encoding.ReadsBack]
    constructor
    · intro h
      have hlength := congrArg List.length h
      rw [List.length_map] at hlength
      exact narrow_of_length hlength
    · exact latin1_narrow
  | ascii =>
    simp only [mapError_eq_ok, Encoding.ReadsBack]
    constructor
    · exact fun h => narrow_of_length (length_decodeNarrow h).symm
    · exact fun h => decodeNarrow_narrow h 0
  | utf16 =>
    simp only [Encoding.ReadsBack, hempty]
    constructor
    · exact decodeMarked16_encode
    · intro h
      rw [h]; rfl
  | utf16Little =>
    simp only [mapError_eq_ok, Encoding.ReadsBack, hempty]
    constructor
    · exact fun h => Utf16.encode_ne (Utf16.decodeFrom_ok h)
    · intro h
      rw [h]; rfl

end Amend.Codec
