/-
When two codes agree. Once normal, they are the same, or one is a number and the other the same number
after letters. So agreement is reflexive and symmetric, and two different codes that both start with
letters never agree.
-/
import Amend.Code
import Mathlib.Data.List.Basic

namespace Amend

namespace Text

/-! ## Letters and digits -/

theorem toNat_of_isLatinLetter {c : Char} (h : isLatinLetter c = true) : 0x41 ≤ c.toNat ∧ c.toNat ≤ 0x7a := by
  unfold isLatinLetter at h
  simp only [Bool.or_eq_true, Bool.and_eq_true, decide_eq_true_eq, Char.le_def, UInt32.le_iff_toNat_le] at h
  change (97 ≤ c.toNat ∧ c.toNat ≤ 122) ∨ (65 ≤ c.toNat ∧ c.toNat ≤ 90) at h
  omega

/-- Digits come before the Latin letters, or after them. -/
theorem toNat_of_isDigit {c : Char} (h : isDigit c = true) : c.toNat < 0x3a ∨ 0xb2 ≤ c.toNat := by
  have hzeros : ∀ first ∈ decimalZeros, first = 0x30 ∨ 0x660 ≤ first := by decide
  have hloose : ∀ row ∈ looseDigits, 0xb2 ≤ row.1 := by decide
  unfold isDigit at h
  rcases Bool.or_eq_true .. ▸ h with h | h
  · unfold isDecimal decimalValue? at h
    rw [Option.isSome_map, List.find?_isSome] at h
    obtain ⟨first, hfirst, hrange⟩ := h
    have := hzeros first hfirst
    simp only [Bool.and_eq_true, decide_eq_true_eq] at hrange
    omega
  · obtain ⟨⟨low, high⟩, hrow, hrange⟩ := List.any_eq_true.1 h
    have := hloose _ hrow
    simp only [Bool.and_eq_true, decide_eq_true_eq] at this hrange
    omega

theorem isDigit_of_isDecimal {c : Char} (h : isDecimal c = true) : isDigit c = true := by
  unfold isDigit
  rw [h, Bool.true_or]

theorem not_isDigit_of_isLatinLetter {c : Char} (h : isLatinLetter c = true) : isDigit c = false := by
  rw [Bool.eq_false_iff]
  intro hdigit
  have := toNat_of_isLatinLetter h
  have := toNat_of_isDigit hdigit
  omega

end Text

namespace Code

/-! ## Numbers with and without letters -/

/-- A number: decimal digits of any script, and at least one. -/
def IsNumber (digits : List Char) : Prop :=
  digits ≠ [] ∧ ∀ c ∈ digits, Text.isDecimal c = true

/-- Letters `A` to `Z` in either case, at least one, and then exactly what is given. -/
def Lettered (rest cs : List Char) : Prop :=
  ∃ letters, letters ≠ [] ∧ (∀ c ∈ letters, Text.isLatinLetter c = true) ∧ cs = letters ++ rest

theorem IsNumber.allDigits {digits : List Char} (h : IsNumber digits) : allDigits digits = true := by
  unfold Code.allDigits
  rw [Bool.and_eq_true, Bool.not_eq_true', List.isEmpty_eq_false_iff, List.all_eq_true]
  exact ⟨h.1, fun c hc => Text.isDigit_of_isDecimal (h.2 c hc)⟩

/-- A text of digits does not start with a letter. -/
theorem Lettered.not_allDigits {rest cs : List Char} (h : Lettered rest cs) : allDigits cs = false := by
  obtain ⟨letters, hne, hletters, rfl⟩ := h
  obtain ⟨c, letters, rfl⟩ := List.exists_cons_of_ne_nil hne
  have hc := Text.not_isDigit_of_isLatinLetter (hletters c (List.mem_cons_self ..))
  unfold allDigits
  rw [List.cons_append, List.all_cons, hc, Bool.false_and, Bool.and_false]

theorem Lettered.not_isNumber {rest cs : List Char} (h : Lettered rest cs) : ¬ IsNumber cs := by
  intro hnumber
  have hdigits := hnumber.allDigits
  rw [h.not_allDigits] at hdigits
  cases hdigits

theorem dropWhile_of_isNumber {digits : List Char} (h : IsNumber digits) :
    digits.dropWhile Text.isLatinLetter = digits := by
  obtain ⟨c, rest, rfl⟩ := List.exists_cons_of_ne_nil h.1
  refine List.dropWhile_cons_of_neg fun hletter => ?_
  have hdigit := Text.isDigit_of_isDecimal (h.2 c (List.mem_cons_self ..))
  rw [Text.not_isDigit_of_isLatinLetter hletter] at hdigit
  cases hdigit

/-- Letters before a number are taken off. -/
theorem number_of_lettered {digits cs : List Char} (hdigits : IsNumber digits) (h : Lettered digits cs) :
    number cs = digits := by
  obtain ⟨letters, hne, hletters, rfl⟩ := h
  have hdrop : (letters ++ digits).dropWhile Text.isLatinLetter = digits := by
    rw [List.dropWhile_append_of_pos hletters, dropWhile_of_isNumber hdigits]
  have hshorter : digits.length < (letters ++ digits).length := by
    have := List.length_pos_iff.2 hne
    rw [List.length_append]
    omega
  unfold number
  simp only [hdrop]
  refine if_pos ?_
  rw [Bool.and_eq_true, Bool.and_eq_true, decide_eq_true_eq, Bool.not_eq_true', List.isEmpty_eq_false_iff,
    List.all_eq_true]
  exact ⟨⟨hshorter, hdigits.1⟩, hdigits.2⟩

/-- Nothing else is: a code stays as it is, or is letters before the number it becomes. -/
theorem number_cases (cs : List Char) : number cs = cs ∨ IsNumber (number cs) ∧ Lettered (number cs) cs := by
  have hsplit := List.takeWhile_append_dropWhile (p := Text.isLatinLetter) (l := cs)
  unfold number
  simp only
  generalize hrest : cs.dropWhile Text.isLatinLetter = rest at hsplit
  split
  · rename_i h
    rw [Bool.and_eq_true, Bool.and_eq_true, decide_eq_true_eq, Bool.not_eq_true', List.isEmpty_eq_false_iff,
      List.all_eq_true] at h
    obtain ⟨⟨hshorter, hne⟩, hdecimal⟩ := h
    refine .inr ⟨⟨hne, hdecimal⟩, cs.takeWhile Text.isLatinLetter, ?_, ?_, hsplit.symm⟩
    · intro hnone
      rw [hnone, List.nil_append] at hsplit
      exact absurd (congrArg List.length hsplit) (Nat.ne_of_lt hshorter)
    · exact fun c hc => List.all_eq_true.1 List.all_takeWhile c hc
  · exact .inl rfl

theorem number_of_allDigits {cs : List Char} (h : allDigits cs = true) : number cs = cs := by
  rcases number_cases cs with hsame | ⟨-, hlettered⟩
  · exact hsame
  · rw [hlettered.not_allDigits] at h
    cases h

/-! ## Agreement -/

/-- A code is a number, and another one is letters and then that number. -/
def Shortens (short long : List Char) : Prop :=
  IsNumber short ∧ Lettered short long

/-- A text of digits has the number of a different code exactly if it shortens that code. -/
theorem number_eq_iff_shortens {digits cs : List Char} (hdigits : allDigits digits = true) (hne : digits ≠ cs) :
    number digits = number cs ↔ Shortens digits cs := by
  rw [number_of_allDigits hdigits]
  constructor
  · intro h
    rw [h] at hne
    rw [h]
    exact (number_cases cs).resolve_left hne
  · rintro ⟨hnumber, hlettered⟩
    exact (number_of_lettered hnumber hlettered).symm

theorem agrees_iff {requested actual : String} : agrees requested actual = true ↔
    normalize requested = normalize actual ∨ Shortens (normalize requested).toList (normalize actual).toList ∨
      Shortens (normalize actual).toList (normalize requested).toList := by
  unfold agrees
  rw [← String.toList_inj]
  generalize (normalize requested).toList = left
  generalize (normalize actual).toList = right
  simp only [Bool.or_eq_true, Bool.and_eq_true, beq_iff_eq]
  by_cases hsame : left = right
  · exact iff_of_true (.inl hsame) (.inl hsame)
  · rw [or_iff_right hsame, or_iff_right hsame]
    constructor
    · rintro ⟨hnumber, hdigits | hdigits⟩
      · exact .inl ((number_eq_iff_shortens hdigits hsame).1 hnumber)
      · exact .inr ((number_eq_iff_shortens hdigits (Ne.symm hsame)).1 hnumber.symm)
    · rintro (h | h)
      · exact ⟨(number_eq_iff_shortens h.1.allDigits hsame).2 h, .inl h.1.allDigits⟩
      · exact ⟨((number_eq_iff_shortens h.1.allDigits (Ne.symm hsame)).2 h).symm, .inr h.1.allDigits⟩

theorem agrees_comm (requested actual : String) : agrees requested actual = agrees actual requested := by
  rw [Bool.eq_iff_iff, agrees_iff, agrees_iff, eq_comm, or_comm (a := Shortens _ _)]

/-- When two codes agree. They are the same once normal, or one is a number and the other is letters and then
that number. So each code agrees with itself, the order of two codes does not count, and codes that both start
with letters agree only if they are the same. -/
theorem codes_agree_iff :
    (∀ requested actual, agrees requested actual = true ↔
      normalize requested = normalize actual ∨ Shortens (normalize requested).toList (normalize actual).toList ∨
        Shortens (normalize actual).toList (normalize requested).toList) ∧
    (∀ code, agrees code code = true) ∧
    (∀ requested actual, agrees requested actual = agrees actual requested) ∧
    ∀ requested actual rest rest', Lettered rest (normalize requested).toList →
      Lettered rest' (normalize actual).toList → normalize requested ≠ normalize actual →
        agrees requested actual = false := by
  refine ⟨fun _ _ => agrees_iff, fun code => agrees_iff.2 (.inl rfl), agrees_comm, ?_⟩
  intro requested actual rest rest' hleft hright hne
  rw [Bool.eq_false_iff]
  intro hagrees
  rcases agrees_iff.1 hagrees with hsame | hshort | hshort
  · exact hne hsame
  · exact hleft.not_isNumber hshort.1
  · exact hright.not_isNumber hshort.1

/-- Letters before a number tell codes apart, though both agree with the number alone. -/
theorem prefixed_codes_agree_iff :
    agrees " ts2345" "E2345 " = false ∧ agrees "TS2345" "2345" = true ∧ agrees "2345" "E2345" = true := by
  have hleft : Lettered ['2', '3', '4', '5'] (normalize " ts2345").toList :=
    ⟨['T', 'S'], by decide, List.all_eq_true.1 (by decide), by decide +kernel⟩
  have hright : Lettered ['2', '3', '4', '5'] (normalize "E2345 ").toList :=
    ⟨['E'], by decide, List.all_eq_true.1 (by decide), by decide +kernel⟩
  exact ⟨codes_agree_iff.2.2.2 _ _ _ _ hleft hright (by decide +kernel), by decide +kernel, by decide +kernel⟩

end Code

end Amend
