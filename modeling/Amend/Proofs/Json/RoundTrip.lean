/-
Reading what was written. A value without fractions is read back from its line, wherever that stands,
unless one of its whole numbers has more digits than the reader takes; and the line has no other characters
than those that ASCII shows.
-/
import Amend.Json.Reader
import Amend.Json.Writer
import Amend.Proofs.Table
import Amend.Proofs.Text.Digit

namespace Amend.Json

/-! ## Escapes by number -/

theorem length_hex {n : Nat} (h : n < 0x10000) : (Text.hex 4 n).toList.length = 4 := by
  rw [Text.hex_four h]
  rfl

theorem fourHex?_hex {n : Nat} (h : n < 0x10000) (rest : List Char) :
    fourHex? ((Text.hex 4 n).toList ++ rest) = some n := by
  rw [Text.hex_four h]
  show (do
    let a ← Text.hexValue? (Nat.digitChar (n / 4096))
    let b ← Text.hexValue? (Nat.digitChar (n / 256 % 16))
    let c ← Text.hexValue? (Nat.digitChar (n / 16 % 16))
    let d ← Text.hexValue? (Nat.digitChar (n % 16))
    return ((a * 16 + b) * 16 + c) * 16 + d) = some n
  rw [Text.hexValue?_digitChar _ (by omega), Text.hexValue?_digitChar _ (by omega),
    Text.hexValue?_digitChar _ (by omega), Text.hexValue?_digitChar _ (by omega)]
  show some _ = some n
  rw [Option.some.injEq]
  omega

theorem toList_unitEscape (n : Nat) : (unitEscape n).toList = '\\' :: 'u' :: (Text.hex 4 n).toList := by
  unfold unitEscape
  rw [String.toList_append]
  rfl

/-- A character that is no half of a pair is read from its own number. -/
theorem unicodeEscape_unit {n : Nat} (h : n < 0xd800 ∨ 0xe000 ≤ n ∧ n < 0x10000) {rest : List Char} (hrest : rest ≠ [])
    (offset : Nat) : unicodeEscape ⟨(Text.hex 4 n).toList ++ rest, offset⟩ = .ok (Char.ofNat n, 4) := by
  have hn : n < 0x10000 := by omega
  have hdrop : ((Text.hex 4 n).toList ++ rest).drop 4 = rest := List.drop_left' (length_hex hn)
  have hhalf : (decide (0xd800 ≤ n) && decide (n < 0xdc00)) = false := by
    simp only [Bool.and_eq_false_iff, decide_eq_false_iff_not]
    omega
  have hunit : charOfUnit n = Char.ofNat n := by
    unfold charOfUnit
    rw [if_neg]
    simp only [Bool.and_eq_true, decide_eq_true_eq]
    omega
  unfold unicodeEscape
  simp only [hdrop, fourHex?_hex hn, hhalf, Bool.false_and, hunit]
  simp [hrest]

/-- Two halves of a pair are read as one character. -/
theorem unicodeEscape_pair {n : Nat} (h : n < 0x100000) {rest : List Char} (hrest : rest ≠ []) (offset : Nat) :
    unicodeEscape ⟨(Text.hex 4 (0xd800 + n / 0x400)).toList ++ ((unitEscape (0xdc00 + n % 0x400)).toList ++ rest),
      offset⟩ = .ok (Char.ofNat (0x10000 + n), 10) := by
  have hhigh : 0xd800 + n / 0x400 < 0x10000 := by omega
  have hlow : 0xdc00 + n % 0x400 < 0x10000 := by omega
  have hchar : 0x10000 + (0xd800 + n / 0x400 - 0xd800) * 0x400 + (0xdc00 + n % 0x400 - 0xdc00) = 0x10000 + n := by omega
  have hhalf : (decide (0xd800 ≤ 0xd800 + n / 0x400) && decide (0xd800 + n / 0x400 < 0xdc00)) = true := by
    simp only [Bool.and_eq_true, decide_eq_true_eq]
    omega
  have hother : (decide (0xdc00 ≤ 0xdc00 + n % 0x400) && decide (0xdc00 + n % 0x400 < 0xe000)) = true := by
    simp only [Bool.and_eq_true, decide_eq_true_eq]
    omega
  generalize 0xd800 + n / 0x400 = high at *
  generalize 0xdc00 + n % 0x400 = low at *
  rw [toList_unitEscape]
  have hfour : ((Text.hex 4 high).toList ++ ('\\' :: 'u' :: (Text.hex 4 low).toList ++ rest)).drop 4 =
      '\\' :: 'u' :: ((Text.hex 4 low).toList ++ rest) := List.drop_left' (length_hex hhigh)
  have hsix : ((Text.hex 4 high).toList ++ ('\\' :: 'u' :: (Text.hex 4 low).toList ++ rest)).drop 6 =
      (Text.hex 4 low).toList ++ rest := by
    rw [← List.drop_drop (i := 2) (j := 4), hfour]
    rfl
  have hten : ((Text.hex 4 high).toList ++ ('\\' :: 'u' :: (Text.hex 4 low).toList ++ rest)).drop 10 = rest := by
    rw [← List.drop_drop (i := 4) (j := 6), hsix]
    exact List.drop_left' (length_hex hlow)
  unfold unicodeEscape Cursor.startsWith Cursor.skip
  simp only [hfour, hsix, hten, fourHex?_hex hhigh, fourHex?_hex hlow, hhalf, hother, hchar]
  simp [hrest]

/-! ## Strings -/

/-- The characters that have an escape of their own, with its letter. -/
def letters : List (Char × Char) :=
  [('"', '"'), ('\\', '\\'), ('\n', 'n'), ('\r', 'r'), ('\t', 't'), ('\x0c', 'f'), ('\x08', 'b')]

/-- How a character is written: with its letter, as itself, by its number, or by those of two halves. -/
inductive Escaped (c : Char) : List Char → Prop where
  | letter {d : Char} (h : (c, d) ∈ letters) : Escaped c ['\\', d]
  | plain (hquote : c ≠ '"') (hslash : c ≠ '\\') (hshown : Text.Shown c) : Escaped c [c]
  | unit (h : c.toNat < 0x10000) : Escaped c (unitEscape c.toNat).toList
  | pair {n : Nat} (h : c.toNat = 0x10000 + n) :
      Escaped c ((unitEscape (0xd800 + n / 0x400)).toList ++ (unitEscape (0xdc00 + n % 0x400)).toList)

theorem escaped_escapeChar (c : Char) : Escaped c (escapeChar c).toList := by
  by_cases hletter : c ∈ letters.map Prod.fst
  · obtain ⟨⟨_, d⟩, hd, rfl⟩ := List.mem_map.1 hletter
    have hwritten : letters.all (fun row => (escapeChar row.1).toList == ['\\', row.2]) = true := by decide
    rw [beq_iff_eq.1 (List.all_eq_true.1 hwritten _ hd)]
    exact .letter hd
  · simp only [letters, List.map_cons, List.map_nil, List.mem_cons, List.not_mem_nil, or_false, not_or] at hletter
    obtain ⟨hquote, hslash, hfeed, hreturn, htab, hpage, hback⟩ := hletter
    unfold escapeChar
    rw [if_neg hquote, if_neg hslash, if_neg hfeed, if_neg hreturn, if_neg htab, if_neg hpage, if_neg hback]
    split
    · rename_i hshown
      rw [Bool.and_eq_true, decide_eq_true_eq, decide_eq_true_eq] at hshown
      have hsingle : c.toString.toList = [c] := String.toList_singleton c
      rw [hsingle]
      exact .plain hquote hslash hshown
    split
    · rename_i hunit
      exact .unit hunit
    · rename_i hpair
      rw [String.toList_append]
      exact .pair (by omega)

section Strings

variable (start : Nat) (done : List Char)

/-- What belongs to an escape is passed over. -/
theorem stringBody_append (taken rest : List Char) (offset : Nat) :
    stringBody start done taken.length offset (taken ++ rest) = stringBody start done 0 (offset + taken.length) rest := by
  induction taken generalizing offset with
  | nil => rfl
  | cons c taken ih =>
    show stringBody start done taken.length (offset + 1) (taken ++ rest) = _
    rw [ih, List.length_cons, Nat.add_assoc, Nat.add_comm 1]

/-- An escape by number, whose digits are taken as one character. -/
theorem stringBody_digits {digits rest : List Char} {c : Char} {n offset : Nat} (hn : digits.length = n)
    (h : unicodeEscape ⟨digits ++ rest, offset + 2⟩ = .ok (c, n)) :
    stringBody start done 0 offset ('\\' :: 'u' :: (digits ++ rest)) =
      stringBody start (c :: done) 0 (offset + (digits.length + 2)) rest := by
  subst hn
  rw [stringBody, h]
  simp only
  rw [stringBody_append, Nat.add_assoc, Nat.add_comm 2]

theorem stringBody_plain {c : Char} (hc : ' ' ≤ c) (hquote : c ≠ '"') (hslash : c ≠ '\\') (rest : List Char)
    (offset : Nat) :
    stringBody start done 0 offset (c :: rest) = stringBody start (c :: done) 0 (offset + 1) rest := by
  have hcontrol : ¬ c.toNat < 0x20 := by
    have hle : ' '.toNat ≤ c.toNat := hc
    exact Nat.not_lt.2 hle
  rw [stringBody]
  · rw [if_neg hcontrol]
  · exact hquote
  · exact hslash

/-- A written character is read as itself, if something follows. -/
theorem stringBody_of_escaped {c : Char} {cs : List Char} (h : Escaped c cs) {rest : List Char} (hrest : rest ≠ [])
    (offset : Nat) :
    stringBody start done 0 offset (cs ++ rest) = stringBody start (c :: done) 0 (offset + cs.length) rest := by
  have hvalid : c.toNat < 0xd800 ∨ 0xdfff < c.toNat ∧ c.toNat < 0x110000 := c.valid
  cases h with
  | letter h =>
    simp only [letters, List.mem_cons, Prod.mk.injEq, List.not_mem_nil, or_false] at h
    rcases h with ⟨rfl, rfl⟩ | ⟨rfl, rfl⟩ | ⟨rfl, rfl⟩ | ⟨rfl, rfl⟩ | ⟨rfl, rfl⟩ | ⟨rfl, rfl⟩ | ⟨rfl, rfl⟩ <;> rfl
  | plain hquote hslash hshown => exact stringBody_plain start done hshown.1 hquote hslash rest offset
  | unit h =>
    have hescape := unicodeEscape_unit (n := c.toNat) (by omega) hrest (offset + 2)
    rw [Char.ofNat_toNat] at hescape
    rw [toList_unitEscape]
    exact stringBody_digits start done (length_hex h) hescape
  | @pair n h =>
    have hescape := unicodeEscape_pair (n := n) (by omega) hrest (offset + 2)
    rw [← h, Char.ofNat_toNat, ← List.append_assoc] at hescape
    have hlength : ((Text.hex 4 (0xd800 + n / 0x400)).toList ++
        (unitEscape (0xdc00 + n % 0x400)).toList).length = 10 := by
      rw [toList_unitEscape, List.length_append, List.length_cons, List.length_cons, length_hex (by omega),
        length_hex (by omega)]
    rw [toList_unitEscape (0xd800 + _), List.cons_append, List.cons_append, List.cons_append, List.cons_append,
      stringBody_digits start done hlength hescape, List.length_cons, List.length_cons]

theorem stringBody_written (cs rest : List Char) (offset : Nat) :
    stringBody start done 0 offset (cs.flatMap (fun c => (escapeChar c).toList) ++ '"' :: rest) =
      .ok (String.ofList (done.reverse ++ cs), offset + (cs.flatMap fun c => (escapeChar c).toList).length + 1) := by
  induction cs generalizing done offset with
  | nil =>
    rw [List.append_nil]
    rfl
  | cons c cs ih =>
    rw [List.flatMap_cons, List.append_assoc, stringBody_of_escaped start done (escaped_escapeChar c) (by simp), ih,
      List.reverse_cons, List.append_assoc, List.length_append, Nat.add_assoc offset]
    rfl

end Strings

theorem toList_writeString (s : String) :
    (writeString s).toList = '"' :: (s.toList.flatMap (fun c => (escapeChar c).toList) ++ ['"']) := by
  unfold writeString
  rw [String.toList_append, String.toList_append, String.toList_join, List.flatMap_map]
  rfl

/-- A written string is read from after its opening quote on. -/
theorem string_writeString (s : String) (rest : List Char) (offset : Nat) :
    string ((Cursor.mk ((writeString s).toList ++ rest) offset).skip 1) =
      .ok (s, ⟨rest, offset + (writeString s).toList.length⟩) := by
  rw [toList_writeString]
  unfold string Cursor.skip
  simp only [List.cons_append, List.append_assoc, List.nil_append, List.drop_succ_cons, List.drop_zero]
  rw [stringBody_written]
  generalize s.toList.flatMap (fun c => (escapeChar c).toList) = body
  have htaken : offset + 1 + body.length + 1 - (offset + 1) = body.length + 1 := by omega
  have hrest : (body ++ '"' :: rest).drop (body.length + 1) = rest := by
    rw [List.append_cons]
    exact List.drop_left' (by rw [List.length_append]; rfl)
  simp only [bind, Except.bind, pure, Except.pure, List.reverse_nil, List.nil_append, String.ofList_toList, htaken, hrest,
    List.length_cons, List.length_append, List.length_nil]
  congr 3
  omega

/-! ## Numbers -/

theorem startsWith_cons_of_ne {c d : Char} {cs rest : List Char} {offset : Nat} {s : String} (hs : s.toList = c :: cs)
    (h : c ≠ d) : Cursor.startsWith ⟨d :: rest, offset⟩ s = false := by
  unfold Cursor.startsWith
  rw [hs, List.isPrefixOf_cons_cons, beq_eq_false_iff_ne.2 h, Bool.false_and]

/-- A whole number that has no more digits than the limit, if there is one. -/
def Fits (limit : Option Nat) (n : Int) : Prop :=
  ∀ most ∈ limit, (Nat.toDigits 10 n.natAbs).length ≤ most

/-- What may follow a value: nothing, or a mark of the format. -/
def Closes (rest : List Char) : Prop :=
  ∀ c ∈ rest.head?, c ∈ [',', ']', '\x7d']

section Numbers

variable {rest : List Char} (hrest : Closes rest)
include hrest

theorem Closes.head_ne {c : Char} (hc : c ∉ [',', ']', '\x7d']) : rest.head? ≠ some c :=
  fun h => hc (hrest c h)

theorem digitsOf_append {digits : List Char} (h : ∀ c ∈ digits, Text.isPlainDigit c = true) :
    digitsOf (digits ++ rest) = digits := by
  unfold digitsOf
  rw [List.takeWhile_append_of_pos h]
  have hnone : rest.takeWhile Text.isPlainDigit = [] := by
    cases rest with
    | nil => rfl
    | cons c rest =>
      exact List.takeWhile_cons_of_neg fun hc => Text.not_mem_of_isPlainDigit hc (by decide) (hrest c rfl)
  rw [hnone, List.append_nil]

theorem wholePart_toDigits (n : Nat) : wholePart (Nat.toDigits 10 n ++ rest) = Nat.toDigits 10 n := by
  unfold wholePart
  rw [digitsOf_append hrest fun _ hc => Text.isPlainDigit_of_mem_toDigits hc]
  split
  · rename_i digits hzero
    have hn : n = 0 := by
      by_contra hn
      exact Text.head?_toDigits hn (by rw [hzero]; rfl)
    rw [hn]
    rfl
  · rfl

theorem fractionPart_of_closes : fractionPart rest = [] := by
  unfold fractionPart
  split
  · exact absurd rfl (hrest.head_ne (show '.' ∉ [',', ']', '\x7d'] by decide))
  · rfl

theorem exponentPart?_of_closes : exponentPart? rest = none := by
  unfold exponentPart?
  split
  · rename_i e rest
    rw [if_neg]
    rw [Bool.or_eq_true, decide_eq_true_eq, decide_eq_true_eq]
    rintro (rfl | rfl)
    · exact hrest.head_ne (show 'e' ∉ [',', ']', '\x7d'] by decide) rfl
    · exact hrest.head_ne (show 'E' ∉ [',', ']', '\x7d'] by decide) rfl
  · rfl

/-- A whole number is read from its digits, once its sign is off. -/
theorem number_of_digits {limit : Option Nat} {cur : Cursor} {negative : Bool} {m start : Nat}
    (hsign : cur.startsWith "-" = negative)
    (hbody : (if negative then cur.skip 1 else cur) = ⟨Nat.toDigits 10 m ++ rest, start⟩)
    (hlimit : ∀ most ∈ limit, (Nat.toDigits 10 m).length ≤ most) :
    number limit cur =
      .ok (.int (if negative then -(m : Int) else m), ⟨rest, start + (Nat.toDigits 10 m).length⟩) := by
  have hempty : (Nat.toDigits 10 m).isEmpty = false := List.isEmpty_eq_false_iff.2 Nat.toDigits_ne_nil
  have hshort : limit.any (fun most => decide (most < (Nat.toDigits 10 m).length)) = false := by
    cases limit with
    | none => rfl
    | some most => exact decide_eq_false (Nat.not_lt.2 (hlimit most rfl))
  unfold number
  simp only [hsign, hbody, wholePart_toDigits hrest, hempty]
  simp only [Cursor.skip, List.drop_left, fractionPart_of_closes hrest, List.isEmpty_nil, if_true, Nat.add_zero,
    exponentPart?_of_closes hrest, Option.isNone_none, Bool.and_self, hshort, Text.plainNumber_toDigits]
  rfl

/-- A written whole number is read. -/
theorem number_toString {limit : Option Nat} {n : Int} (hlimit : Fits limit n) (offset : Nat) :
    number limit ⟨(toString n).toList ++ rest, offset⟩ = .ok (.int n, ⟨rest, offset + (toString n).toList.length⟩) := by
  rw [Text.toList_toString_int]
  by_cases hn : n < 0
  · have hsign : Cursor.startsWith ⟨'-' :: Nat.toDigits 10 n.natAbs ++ rest, offset⟩ "-" = true := rfl
    have hread := number_of_digits hrest hsign rfl hlimit
    rw [if_pos hn]
    refine hread.trans ?_
    have hvalue : -(n.natAbs : Int) = n := by omega
    simp only [if_true, hvalue, List.singleton_append, List.length_cons]
    rw [Nat.add_assoc, Nat.add_comm 1]
  · have hsign : Cursor.startsWith ⟨Nat.toDigits 10 n.natAbs ++ rest, offset⟩ "-" = false := by
      obtain ⟨d, ds, hds, hd⟩ := Text.exists_cons_toDigits n.natAbs
      rw [hds]
      refine startsWith_cons_of_ne rfl ?_
      rintro rfl
      exact absurd hd (by decide)
    have hread := number_of_digits hrest hsign rfl hlimit
    have hvalue : (n.natAbs : Int) = n := by omega
    rw [if_neg hn]
    refine hread.trans ?_
    rw [if_neg Bool.false_ne_true, hvalue]
    rfl

end Numbers

/-! ## Values -/

/-- A value without fractions whose whole numbers have no more digits than the limit, and whose objects
have no name twice. -/
inductive Legible (limit : Option Nat) : Json → Prop where
  | null : Legible limit .null
  | bool (b : Bool) : Legible limit (.bool b)
  | int {n : Int} (h : Fits limit n) : Legible limit (.int n)
  | str (s : String) : Legible limit (.str s)
  | arr {items : List Json} (h : ∀ item ∈ items, Legible limit item) : Legible limit (.arr items)
  | obj {fields : List (String × Json)} (hnames : (Table.keys fields).Nodup)
      (h : ∀ row ∈ fields, Legible limit row.2) : Legible limit (.obj fields)

/-- A value that is read from where it was written. -/
def Reads (limit : Option Nat) (j : Json) : Prop :=
  ∀ (fuel : Nat) (rest : List Char) (offset : Nat), (write j).toList.length ≤ fuel → Closes rest →
    value limit fuel ⟨(write j).toList ++ rest, offset⟩ = .ok (j, ⟨rest, offset + (write j).toList.length⟩)

section Values

variable {limit : Option Nat}

theorem skipBlanks_of_head {cur : Cursor} (h : ∀ c ∈ cur.rest.head?, Cursor.isBlank c = false) :
    cur.skipBlanks = cur := by
  have hnone : cur.rest.takeWhile Cursor.isBlank = [] := by
    cases hcur : cur.rest with
    | nil => rfl
    | cons c rest =>
      rw [hcur] at h
      exact List.takeWhile_cons_of_neg (Bool.eq_false_iff.1 (h c rfl))
  unfold Cursor.skipBlanks
  rw [hnone]
  rfl

/-- A value whose text is not empty is looked at before the fuel is spent. -/
theorem reads_of_succ {j : Json} {c : Char} {cs : List Char} (hcs : (write j).toList = c :: cs)
    (h : ∀ fuel rest offset, (write j).toList.length ≤ fuel + 1 → Closes rest →
      value limit (fuel + 1) ⟨(write j).toList ++ rest, offset⟩ =
        .ok (j, ⟨rest, offset + (write j).toList.length⟩)) : Reads limit j := by
  rintro (_ | fuel) rest offset hfuel hrest
  · rw [hcs] at hfuel
    exact absurd hfuel (Nat.not_succ_le_zero _)
  · exact h fuel rest offset hfuel hrest

/-! ### Scalars -/

theorem reads_null : Reads limit .null :=
  reads_of_succ rfl fun _ _ _ _ _ => rfl

theorem reads_bool (b : Bool) : Reads limit (.bool b) := by
  cases b
  · exact reads_of_succ rfl fun _ _ _ _ _ => rfl
  · exact reads_of_succ rfl fun _ _ _ _ _ => rfl

theorem reads_str (s : String) : Reads limit (.str s) := by
  refine reads_of_succ (toList_writeString s) fun fuel rest offset _ _ => ?_
  have hstring := string_writeString s rest offset
  show value limit (fuel + 1) ⟨(writeString s).toList ++ rest, offset⟩ =
    .ok (.str s, ⟨rest, offset + (writeString s).toList.length⟩)
  generalize (writeString s).toList.length = width at hstring
  rw [toList_writeString, List.cons_append] at hstring ⊢
  simp only [value]
  rw [hstring]
  rfl

/-- A value that is no string, collection or word is a number. -/
theorem value_of_number {c : Char} {cs : List Char} {offset : Nat}
    (hc : c ∉ ['"', '[', '\x7b', 'n', 't', 'f', 'N', 'I'])
    (hword : Cursor.startsWith ⟨c :: cs, offset⟩ "-Infinity" = false) (fuel : Nat) :
    value limit (fuel + 1) ⟨c :: cs, offset⟩ = number limit ⟨c :: cs, offset⟩ := by
  have hne : ∀ d ∈ ['"', '[', '\x7b', 'n', 't', 'f', 'N', 'I'], d ≠ c := by
    rintro d hd rfl
    exact hc hd
  have hnone : ∀ row ∈ wordValues, Cursor.startsWith ⟨c :: cs, offset⟩ row.1 = false := by
    simp only [wordValues, List.forall_mem_cons]
    refine ⟨?_, ?_, ?_, ?_, ?_, hword, nofun⟩
    · exact startsWith_cons_of_ne rfl (hne 'n' (by decide))
    · exact startsWith_cons_of_ne rfl (hne 't' (by decide))
    · exact startsWith_cons_of_ne rfl (hne 'f' (by decide))
    · exact startsWith_cons_of_ne rfl (hne 'N' (by decide))
    · exact startsWith_cons_of_ne rfl (hne 'I' (by decide))
  unfold value
  split
  · rename_i heq
    cases heq
    exact absurd rfl (hne '"' (by decide))
  · rename_i heq
    cases heq
    exact absurd rfl (hne '[' (by decide))
  · rename_i heq
    cases heq
    exact absurd rfl (hne '\x7b' (by decide))
  · split
    · rename_i hfound
      exact absurd (List.find?_some hfound) (Bool.eq_false_iff.1 (hnone _ (List.mem_of_find?_eq_some hfound)))
    · rfl

/-- A whole number starts with a digit, or with a sign and a digit. -/
theorem head_int (n : Int) : ∃ c cs, (toString n).toList = c :: cs ∧
    (Text.isPlainDigit c = true ∨ c = '-' ∧ ∃ d ds, cs = d :: ds ∧ Text.isPlainDigit d = true) := by
  obtain ⟨d, ds, hds, hd⟩ := Text.exists_cons_toDigits n.natAbs
  rw [Text.toList_toString_int, hds]
  split
  · exact ⟨'-', d :: ds, rfl, .inr ⟨rfl, d, ds, rfl, hd⟩⟩
  · exact ⟨d, ds, rfl, .inl hd⟩

theorem reads_int {n : Int} (h : Fits limit n) : Reads limit (.int n) := by
  obtain ⟨c, cs, hcs, hc⟩ := head_int n
  have hhead : c ∉ ['"', '[', '\x7b', 'n', 't', 'f', 'N', 'I'] := by
    rcases hc with hc | ⟨rfl, -⟩
    · exact Text.not_mem_of_isPlainDigit hc (by decide)
    · decide
  refine reads_of_succ hcs fun fuel rest offset _ hrest => ?_
  have hword : Cursor.startsWith ⟨c :: (cs ++ rest), offset⟩ "-Infinity" = false := by
    rcases hc with hc | ⟨rfl, d, ds, rfl, hd⟩
    · refine startsWith_cons_of_ne rfl ?_
      rintro rfl
      exact absurd hc (by decide)
    · have hne : 'I' ≠ d := by
        rintro rfl
        exact absurd hd (by decide)
      have hletters : "-Infinity".toList = '-' :: 'I' :: "nfinity".toList := by decide
      unfold Cursor.startsWith
      rw [hletters, List.cons_append, List.isPrefixOf_cons_cons, List.isPrefixOf_cons_cons, beq_eq_false_iff_ne.2 hne,
        Bool.false_and, Bool.and_false]
  show value limit (fuel + 1) ⟨(toString n).toList ++ rest, offset⟩ =
    .ok (.int n, ⟨rest, offset + (toString n).toList.length⟩)
  rw [← number_toString hrest h offset, hcs]
  exact value_of_number hhead hword fuel

/-! ### Collections -/

theorem toList_write_arr (xs : List Json) : (write (.arr xs)).toList = '[' :: ((writeItems xs).toList ++ [']']) := by
  show ("[" ++ writeItems xs ++ "]").toList = _
  rw [String.toList_append, String.toList_append]
  rfl

theorem toList_write_obj (rows : List (String × Json)) :
    (write (.obj rows)).toList = '\x7b' :: ((writeFields rows).toList ++ ['\x7d']) := by
  show ("\x7b" ++ writeFields rows ++ "\x7d").toList = _
  rw [String.toList_append, String.toList_append]
  rfl

/-- A text that starts neither with a blank nor like the end of a collection, and not with a byte order mark. -/
def Begins (cs : List Char) : Prop :=
  ∃ c tail, cs = c :: tail ∧ c ∉ [' ', '\t', '\n', '\r', ']', '\x7d', '\ufeff']

section Begins

variable {cs : List Char} (h : Begins cs)
include h

theorem Begins.append (rest : List Char) : Begins (cs ++ rest) := by
  obtain ⟨c, tail, rfl, hc⟩ := h
  exact ⟨c, tail ++ rest, rfl, hc⟩

theorem Begins.skipBlanks (offset : Nat) : Cursor.skipBlanks ⟨cs, offset⟩ = ⟨cs, offset⟩ := by
  obtain ⟨c, tail, rfl, hc⟩ := h
  refine skipBlanks_of_head fun d hd => ?_
  cases hd
  unfold Cursor.isBlank
  simp only [List.mem_cons, not_or] at hc
  simp [hc]

theorem Begins.startsWith (offset : Nat) :
    Cursor.startsWith ⟨cs, offset⟩ "]" = false ∧ Cursor.startsWith ⟨cs, offset⟩ "\x7d" = false := by
  obtain ⟨c, tail, rfl, hc⟩ := h
  constructor
  · refine startsWith_cons_of_ne rfl ?_
    rintro rfl
    exact hc (by decide)
  · refine startsWith_cons_of_ne rfl ?_
    rintro rfl
    exact hc (by decide)

end Begins

theorem begins_write {j : Json} (h : Legible limit j) : Begins (write j).toList := by
  cases h with
  | null => exact ⟨'n', _, rfl, by decide⟩
  | bool b =>
    cases b
    · exact ⟨'f', _, rfl, by decide⟩
    · exact ⟨'t', _, rfl, by decide⟩
  | int _ =>
    obtain ⟨c, cs, hcs, hc⟩ := head_int _
    refine ⟨c, cs, hcs, ?_⟩
    rcases hc with hc | ⟨rfl, -⟩
    · exact Text.not_mem_of_isPlainDigit hc (by decide)
    · decide
  | str s => exact ⟨'"', _, toList_writeString s, by decide⟩
  | arr _ => exact ⟨'[', _, toList_write_arr _, by decide⟩
  | obj _ _ => exact ⟨'\x7b', _, toList_write_obj _, by decide⟩

section Items

variable {fuel offset offset' : Nat} {cur next : Cursor} {rest : List Char} {v : Json} {vs : List Json}

theorem items_last (h : value limit fuel cur = .ok (v, ⟨']' :: rest, offset⟩)) :
    items limit (fuel + 1) cur = .ok ([v], ⟨rest, offset + 1⟩) := by
  simp only [items, h]
  rfl

theorem items_more (h : value limit fuel cur = .ok (v, ⟨',' :: rest, offset⟩))
    (hmore : items limit fuel (Cursor.skipBlanks ⟨rest, offset + 1⟩) = .ok (vs, next)) :
    items limit (fuel + 1) cur = .ok (v :: vs, next) := by
  have hblank : Cursor.skipBlanks ⟨',' :: rest, offset⟩ = ⟨',' :: rest, offset⟩ := rfl
  have hclose : Cursor.startsWith ⟨',' :: rest, offset⟩ "]" = false := rfl
  have hcomma : Cursor.startsWith ⟨',' :: rest, offset⟩ "," = true := rfl
  have hskip : Cursor.skip ⟨',' :: rest, offset⟩ 1 = ⟨rest, offset + 1⟩ := rfl
  simp only [items, h, bind, Except.bind, hblank, hclose, hcomma, hskip, hmore, if_true]
  rfl

theorem toList_writeItems (x y : Json) (ys : List Json) :
    (writeItems (x :: y :: ys)).toList = (write x).toList ++ ',' :: (writeItems (y :: ys)).toList := by
  rw [writeItems, String.toList_append, String.toList_append, List.append_assoc]
  rfl

theorem begins_writeItems {x : Json} (h : Legible limit x) (xs : List Json) : Begins (writeItems (x :: xs)).toList := by
  cases xs with
  | nil => exact begins_write h
  | cons y ys =>
    rw [toList_writeItems]
    exact (begins_write h).append _

/-- The items of an array are read one by one. -/
theorem items_written : ∀ {xs : List Json}, xs ≠ [] → (∀ x ∈ xs, Legible limit x ∧ Reads limit x) →
    ∀ fuel rest offset, (writeItems xs).toList.length + 1 ≤ fuel →
      items limit fuel ⟨(writeItems xs).toList ++ ']' :: rest, offset⟩ =
        .ok (xs, ⟨rest, offset + (writeItems xs).toList.length + 1⟩) := by
  intro xs
  induction xs with
  | nil => exact fun hne => absurd rfl hne
  | cons x xs ih =>
    rintro - hall (_ | fuel) rest offset hfuel
    · exact absurd hfuel (Nat.not_succ_le_zero _)
    obtain ⟨⟨-, hx⟩, hxs⟩ := List.forall_mem_cons.1 hall
    cases xs with
    | nil => exact items_last (hx fuel (']' :: rest) offset (Nat.le_of_succ_le_succ hfuel) (by rintro c ⟨⟩; decide))
    | cons y ys =>
      rw [toList_writeItems, List.length_append, List.length_cons] at hfuel ⊢
      have hread := hx fuel (',' :: ((writeItems (y :: ys)).toList ++ ']' :: rest)) offset (by omega)
        (by rintro c ⟨⟩; decide)
      have hmore := ih (List.cons_ne_nil _ _) hxs fuel rest (offset + (write x).toList.length + 1) (by omega)
      rw [← ((begins_writeItems (hxs y List.mem_cons_self).1 ys).append _).skipBlanks] at hmore
      rw [List.append_assoc, List.cons_append, items_more hread hmore]
      congr 3
      omega

end Items

theorem reads_arr {xs : List Json} (h : ∀ x ∈ xs, Legible limit x ∧ Reads limit x) : Reads limit (.arr xs) := by
  refine reads_of_succ (toList_write_arr xs) fun fuel rest offset hfuel _ => ?_
  rw [toList_write_arr] at hfuel ⊢
  cases xs with
  | nil => rfl
  | cons x xs =>
    have hbegins := (begins_writeItems (h x List.mem_cons_self).1 xs).append (']' :: rest)
    have hitems := items_written (List.cons_ne_nil x xs) h fuel rest (offset + 1) (Nat.le_of_succ_le_succ
      (by simpa using hfuel))
    have hskip : Cursor.skip ⟨'[' :: ((writeItems (x :: xs)).toList ++ ']' :: rest), offset⟩ 1 =
      ⟨(writeItems (x :: xs)).toList ++ ']' :: rest, offset + 1⟩ := rfl
    rw [List.cons_append, List.append_assoc, List.singleton_append]
    simp only [value, hskip, hbegins.skipBlanks, (hbegins.startsWith _).1, hitems, bind, Except.bind, List.length_cons,
      List.length_append, List.length_nil]
    show Except.ok (Json.arr (x :: xs), Cursor.mk rest (offset + 1 + (writeItems (x :: xs)).toList.length + 1)) = _
    congr 3
    omega

/-! ### Objects -/

theorem startsWith_writeString (s : String) (rest : List Char) (offset : Nat) :
    Cursor.startsWith ⟨(writeString s).toList ++ rest, offset⟩ "\"" = true := by
  rw [toList_writeString]
  rfl

section Fields

variable {fuel offset : Nat} {cur : Cursor} {rest : List Char} {name : String} {v : Json} {rows : List (String × Json)}

/-- One field is read, and then the others unless the object ends. -/
theorem fields_succ {next : Cursor} (hquote : cur.startsWith "\"" = true)
    (hname : string (cur.skip 1) = .ok (name, ⟨':' :: rest, offset⟩))
    (hvalue : value limit fuel (Cursor.skipBlanks ⟨rest, offset + 1⟩) = .ok (v, next)) (done : List (String × Json)) :
    fields limit (fuel + 1) cur done =
      if next.skipBlanks.startsWith "\x7d" then .ok (Table.put done name v, next.skipBlanks.skip 1)
      else if next.skipBlanks.startsWith "," then
        fields limit fuel (next.skipBlanks.skip 1).skipBlanks (Table.put done name v)
      else next.skipBlanks.fail .expectedComma := by
  have hblank : Cursor.skipBlanks ⟨':' :: rest, offset⟩ = ⟨':' :: rest, offset⟩ := rfl
  have hcolon : Cursor.startsWith ⟨':' :: rest, offset⟩ ":" = true := rfl
  have hskip : Cursor.skip ⟨':' :: rest, offset⟩ 1 = ⟨rest, offset + 1⟩ := rfl
  simp only [fields, hquote, hname, bind, Except.bind, hblank, hcolon, hskip, hvalue]
  rfl

/-- The last field of an object, with the name and the value it is written with. -/
theorem fields_last {tail : List Char} {offset' : Nat} {done : List (String × Json)}
    (hquote : cur.startsWith "\"" = true) (hname : string (cur.skip 1) = .ok (name, ⟨':' :: tail, offset⟩))
    (hvalue : value limit fuel (Cursor.skipBlanks ⟨tail, offset + 1⟩) = .ok (v, ⟨'\x7d' :: rest, offset'⟩)) :
    fields limit (fuel + 1) cur done = .ok (Table.put done name v, ⟨rest, offset' + 1⟩) := by
  rw [fields_succ hquote hname hvalue]
  rfl

theorem fields_more {tail : List Char} {offset' : Nat} {done : List (String × Json)} {next : Cursor}
    (hquote : cur.startsWith "\"" = true) (hname : string (cur.skip 1) = .ok (name, ⟨':' :: tail, offset⟩))
    (hvalue : value limit fuel (Cursor.skipBlanks ⟨tail, offset + 1⟩) = .ok (v, ⟨',' :: rest, offset'⟩))
    (hmore : fields limit fuel (Cursor.skipBlanks ⟨rest, offset' + 1⟩) (Table.put done name v) = .ok (rows, next)) :
    fields limit (fuel + 1) cur done = .ok (rows, next) := by
  rw [fields_succ hquote hname hvalue]
  exact hmore

theorem toList_writeFields (name : String) (v : Json) (row : String × Json) (rows : List (String × Json)) :
    (writeFields ((name, v) :: row :: rows)).toList =
      (writeString name).toList ++ ':' :: ((write v).toList ++ ',' :: (writeFields (row :: rows)).toList) := by
  rw [writeFields]
  simp only [String.toList_append, List.append_assoc]
  rfl

theorem toList_writeField (name : String) (v : Json) :
    (writeFields [(name, v)]).toList = (writeString name).toList ++ ':' :: (write v).toList := by
  rw [writeFields]
  simp only [String.toList_append, List.append_assoc]
  rfl

/-- The fields of an object start with the quote of a name. -/
theorem begins_writeFields (row : String × Json) (rows : List (String × Json)) :
    Begins (writeFields (row :: rows)).toList := by
  obtain ⟨name, v⟩ := row
  have hname : Begins (writeString name).toList := ⟨'"', _, toList_writeString name, by decide⟩
  cases rows with
  | nil =>
    rw [toList_writeField]
    exact hname.append _
  | cons row rows =>
    rw [toList_writeFields]
    exact hname.append _

/-- The fields of an object are read one by one. -/
theorem fields_written : ∀ {rows : List (String × Json)}, rows ≠ [] →
    (∀ row ∈ rows, Legible limit row.2 ∧ Reads limit row.2) →
    ∀ fuel rest offset done, (writeFields rows).toList.length + 1 ≤ fuel → (Table.keys (done ++ rows)).Nodup →
      fields limit fuel ⟨(writeFields rows).toList ++ '\x7d' :: rest, offset⟩ done =
        .ok (done ++ rows, ⟨rest, offset + (writeFields rows).toList.length + 1⟩) := by
  intro rows
  induction rows with
  | nil => exact fun hne => absurd rfl hne
  | cons row rows ih =>
    obtain ⟨name, v⟩ := row
    rintro - hall (_ | fuel) rest offset done hfuel hnames
    · exact absurd hfuel (Nat.not_succ_le_zero _)
    obtain ⟨⟨hlegible, hv⟩, hrows⟩ := List.forall_mem_cons.1 hall
    rw [List.append_cons] at hnames
    have hput : Table.put done name v = done ++ [(name, v)] := by
      refine Table.put_of_not_mem (fun hmem => ?_) v
      rw [Table.keys, List.map_append, List.map_append] at hnames
      exact (List.nodup_append.1 (List.nodup_append.1 hnames).1).2.2 name hmem name (List.mem_singleton_self _) rfl
    have hread : ∀ follow offset, (write v).toList.length ≤ fuel → Closes follow →
        value limit fuel (Cursor.skipBlanks ⟨(write v).toList ++ follow, offset⟩) =
          .ok (v, ⟨follow, offset + (write v).toList.length⟩) := by
      intro follow offset hfuel hfollow
      rw [((begins_write hlegible).append follow).skipBlanks]
      exact hv fuel follow offset hfuel hfollow
    cases rows with
    | nil =>
      rw [toList_writeField, List.length_append, List.length_cons] at hfuel ⊢
      rw [List.append_assoc, List.cons_append]
      have hvalue := hread ('\x7d' :: rest) (offset + (writeString name).toList.length + 1) (by omega)
        (by rintro c ⟨⟩; decide)
      rw [fields_last (startsWith_writeString name _ offset) (string_writeString name _ offset) hvalue, hput]
      congr 3
      omega
    | cons row rows =>
      rw [toList_writeFields, List.length_append, List.length_cons, List.length_append, List.length_cons] at hfuel ⊢
      rw [List.append_assoc, List.cons_append, List.append_assoc, List.cons_append]
      have hvalue := hread (',' :: ((writeFields (row :: rows)).toList ++ '\x7d' :: rest))
        (offset + (writeString name).toList.length + 1) (by omega) (by rintro c ⟨⟩; decide)
      have hmore := ih (List.cons_ne_nil _ _) hrows fuel rest
        (offset + (writeString name).toList.length + 1 + (write v).toList.length + 1) (done ++ [(name, v)])
        (by omega) hnames
      rw [← ((begins_writeFields row rows).append _).skipBlanks, ← hput] at hmore
      rw [fields_more (startsWith_writeString name _ offset) (string_writeString name _ offset) hvalue hmore, hput,
        ← List.append_cons]
      congr 3
      omega

end Fields

theorem reads_obj {rows : List (String × Json)} (hnames : (Table.keys rows).Nodup)
    (h : ∀ row ∈ rows, Legible limit row.2 ∧ Reads limit row.2) : Reads limit (.obj rows) := by
  refine reads_of_succ (toList_write_obj rows) fun fuel rest offset hfuel _ => ?_
  rw [toList_write_obj] at hfuel ⊢
  cases rows with
  | nil => rfl
  | cons row rows =>
    have hbegins := (begins_writeFields row rows).append ('\x7d' :: rest)
    have hfields := fields_written (List.cons_ne_nil row rows) h fuel rest (offset + 1) []
      (Nat.le_of_succ_le_succ (by simpa using hfuel)) hnames
    have hskip : Cursor.skip ⟨'\x7b' :: ((writeFields (row :: rows)).toList ++ '\x7d' :: rest), offset⟩ 1 =
      ⟨(writeFields (row :: rows)).toList ++ '\x7d' :: rest, offset + 1⟩ := rfl
    rw [List.cons_append, List.append_assoc, List.singleton_append]
    simp only [value, hskip, hbegins.skipBlanks, (hbegins.startsWith _).2, hfields, bind, Except.bind, List.length_cons,
      List.length_append, List.length_nil]
    show Except.ok (Json.obj (row :: rows), Cursor.mk rest (offset + 1 + (writeFields (row :: rows)).toList.length + 1)) = _
    congr 3
    omega

/-- A legible value is read from its line, wherever it stands. -/
theorem reads_of_legible {j : Json} (h : Legible limit j) : Reads limit j := by
  induction h with
  | null => exact reads_null
  | bool b => exact reads_bool b
  | int h => exact reads_int h
  | str s => exact reads_str s
  | arr h ih => exact reads_arr fun x hx => ⟨h x hx, ih x hx⟩
  | obj hnames h ih => exact reads_obj hnames fun row hrow => ⟨h row hrow, ih row hrow⟩

/-- A line that was written is read as its value. -/
theorem readWithin_write {j : Json} (h : Legible limit j) : readWithin limit (write j) = .ok j := by
  have hread := reads_of_legible h (2 * (write j).toList.length + 2) [] 0 (by omega) nofun
  rw [List.append_nil] at hread
  have hmark : (write j).toList.head? ≠ some '\ufeff' := by
    obtain ⟨c, tail, hcs, hc⟩ := begins_write h
    rw [hcs]
    rintro ⟨⟩
    exact hc (by decide)
  unfold readWithin
  simp only
  rw [if_neg hmark, (begins_write h).skipBlanks, hread]
  rfl

/-! ## Characters of a line -/

theorem shown_unitEscape (unit : Nat) : Text.AllShown (unitEscape unit).toList := by
  rw [toList_unitEscape]
  exact Text.allShown_cons.2 ⟨by decide, Text.allShown_cons.2 ⟨by decide, Text.allShown_hex 4 unit⟩⟩

theorem shown_of_escaped {c : Char} {cs : List Char} (h : Escaped c cs) : Text.AllShown cs := by
  cases h with
  | @letter d h =>
    have hshown : letters.all (fun row => decide (Text.AllShown ['\\', row.2])) = true := by decide
    exact of_decide_eq_true (List.all_eq_true.1 hshown _ h)
  | plain _ _ hshown => exact Text.allShown_cons.2 ⟨hshown, nofun⟩
  | unit h => exact shown_unitEscape _
  | pair h => exact Text.allShown_append.2 ⟨shown_unitEscape _, shown_unitEscape _⟩

theorem shown_writeString (s : String) : Text.AllShown (writeString s).toList := by
  rw [toList_writeString]
  refine Text.allShown_cons.2 ⟨by decide, Text.allShown_append.2 ⟨fun d hd => ?_, by decide⟩⟩
  obtain ⟨c, -, hd⟩ := List.mem_flatMap.1 hd
  exact shown_of_escaped (escaped_escapeChar c) d hd

theorem shown_writeItems {xs : List Json} (h : ∀ x ∈ xs, Text.AllShown (write x).toList) :
    Text.AllShown (writeItems xs).toList := by
  induction xs with
  | nil => exact nofun
  | cons x xs ih =>
    obtain ⟨hx, hxs⟩ := List.forall_mem_cons.1 h
    cases xs with
    | nil => exact hx
    | cons y ys =>
      rw [toList_writeItems]
      exact Text.allShown_append.2 ⟨hx, Text.allShown_cons.2 ⟨by decide, ih hxs⟩⟩

theorem shown_writeFields {rows : List (String × Json)} (h : ∀ row ∈ rows, Text.AllShown (write row.2).toList) :
    Text.AllShown (writeFields rows).toList := by
  induction rows with
  | nil => exact nofun
  | cons row rows ih =>
    obtain ⟨name, v⟩ := row
    obtain ⟨hv, hrows⟩ := List.forall_mem_cons.1 h
    have hname := shown_writeString name
    cases rows with
    | nil =>
      rw [toList_writeField]
      exact Text.allShown_append.2 ⟨hname, Text.allShown_cons.2 ⟨by decide, hv⟩⟩
    | cons row rows =>
      rw [toList_writeFields]
      exact Text.allShown_append.2 ⟨hname, Text.allShown_cons.2 ⟨by decide, Text.allShown_append.2
        ⟨hv, Text.allShown_cons.2 ⟨by decide, ih hrows⟩⟩⟩⟩

/-- A line has only characters that ASCII shows, so it is one line indeed. -/
theorem shown_write {j : Json} (h : Legible limit j) : Text.AllShown (write j).toList := by
  induction h with
  | null => exact (by decide : Text.AllShown "null".toList)
  | bool b =>
    cases b
    · exact (by decide : Text.AllShown "false".toList)
    · exact (by decide : Text.AllShown "true".toList)
  | int _ => exact Text.allShown_toString_int _
  | str s => exact shown_writeString s
  | arr _ ih =>
    rw [toList_write_arr]
    exact Text.allShown_cons.2 ⟨by decide, Text.allShown_append.2 ⟨shown_writeItems ih, by decide⟩⟩
  | obj _ _ ih =>
    rw [toList_write_obj]
    exact Text.allShown_cons.2 ⟨by decide, Text.allShown_append.2 ⟨shown_writeFields ih, by decide⟩⟩

end Values

end Amend.Json
