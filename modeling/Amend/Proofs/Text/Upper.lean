/-
Upper case changes nothing that it has changed already: no letter that some letter is mapped to is itself
mapped to another one, or blank. So a text that is trimmed and put in upper case stays as it is when that is
done again.
-/
import Amend.Code
import Amend.Proofs.Codec.Encoding
import Mathlib.Data.List.DropRight

namespace Amend

namespace Text

/-! ## Sets of numbers -/

/-- A set of numbers as the bits of one number. -/
def bits : List Nat → Nat
  | [] => 0
  | n :: rest => 1 <<< n ||| bits rest

theorem testBit_bits (ns : List Nat) (n : Nat) : (bits ns).testBit n = true ↔ n ∈ ns := by
  induction ns with
  | nil => simp [bits]
  | cons m rest ih =>
    rw [bits, Nat.one_shiftLeft, Nat.testBit_or, Bool.or_eq_true, ih, Nat.testBit_two_pow, decide_eq_true_eq, List.mem_cons,
      eq_comm]

/-- Sets without a common bit have no common number. -/
theorem not_mem_of_bits {ms ns : List Nat} (h : bits ms &&& bits ns = 0) {n : Nat} (hn : n ∈ ms) : n ∉ ns := by
  intro hother
  have hboth : (bits ms &&& bits ns).testBit n = true := by
    rw [Nat.testBit_and, (testBit_bits ms n).2 hn, (testBit_bits ns n).2 hother]
    rfl
  rw [h, Nat.zero_testBit] at hboth
  cases hboth

/-! ## Letters and their upper case -/

/-- The numbers from `first` on that a run takes. -/
def CaseRun.numbersFrom (run : CaseRun) (first : Nat) : List Nat :=
  (List.range ((run.last - run.first) / run.step + 1)).map fun k => first + k * run.step

/-- The letters that have an upper case other than themselves. -/
def lowers : List Nat :=
  (caseRuns.flatMap fun run => run.numbersFrom run.first) ++ wideUppers.map (·.1)

/-- What they are mapped to. -/
def uppers : List Nat :=
  (caseRuns.flatMap fun run => run.numbersFrom run.target) ++ wideUppers.flatMap (·.2)

/-- The blank characters. -/
def blanks : List Nat :=
  blankRanges.flatMap fun range => List.range' range.1 (range.2 - range.1 + 1)

theorem not_lower_of_upper {n : Nat} : n ∈ uppers → n ∉ lowers :=
  not_mem_of_bits (by decide +kernel)

theorem not_blank_of_upper {n : Nat} : n ∈ uppers → n ∉ blanks :=
  not_mem_of_bits (by decide +kernel)

theorem upper_valid : ∀ n ∈ uppers, n < 0xd800 ∨ 0xdfff < n ∧ n < 0x110000 := by decide +kernel

theorem wide_ne_nil : ∀ row ∈ wideUppers, row.2 ≠ [] := by decide +kernel

theorem mem_blanks {c : Char} (h : isBlank c = true) : c.toNat ∈ blanks := by
  unfold isBlank inRanges at h
  obtain ⟨⟨low, high⟩, hrange, hc⟩ := List.any_eq_true.1 h
  rw [Bool.and_eq_true, decide_eq_true_eq, decide_eq_true_eq] at hc
  refine List.mem_flatMap.2 ⟨_, hrange, List.mem_range'_1.2 ⟨hc.1, ?_⟩⟩
  show c.toNat < low + (high - low + 1)
  omega

/-- A number that a run holds is one of its letters, and its image one of the letters it is mapped to. -/
theorem CaseRun.mem_numbersFrom {run : CaseRun} {n : Nat} (h : run.holds n = true) (first : Nat) :
    first + (n - run.first) ∈ run.numbersFrom first := by
  unfold CaseRun.holds at h
  simp only [Bool.and_eq_true, decide_eq_true_eq, beq_iff_eq] at h
  obtain ⟨⟨hfirst, hlast⟩, hstep⟩ := h
  have hdivides : (n - run.first) / run.step * run.step = n - run.first :=
    Nat.div_mul_cancel (Nat.dvd_of_mod_eq_zero hstep)
  have hless : (n - run.first) / run.step ≤ (run.last - run.first) / run.step :=
    Nat.div_le_div_right (Nat.sub_le_sub_right hlast _)
  exact List.mem_map.2 ⟨(n - run.first) / run.step, List.mem_range.2 (Nat.lt_succ_of_le hless), by rw [hdivides]⟩

theorem mem_lowers_of_holds {run : CaseRun} (hrun : run ∈ caseRuns) {n : Nat} (h : run.holds n = true) :
    n ∈ lowers := by
  have hfirst : run.first ≤ n := by
    unfold CaseRun.holds at h
    simp only [Bool.and_eq_true, decide_eq_true_eq] at h
    exact h.1.1
  have hmem := CaseRun.mem_numbersFrom h run.first
  rw [Nat.add_sub_of_le hfirst] at hmem
  exact List.mem_append_left _ (List.mem_flatMap.2 ⟨run, hrun, hmem⟩)

theorem mem_uppers_of_holds {run : CaseRun} (hrun : run ∈ caseRuns) {n : Nat} (h : run.holds n = true) :
    run.target + (n - run.first) ∈ uppers :=
  List.mem_append_left _ (List.mem_flatMap.2 ⟨run, hrun, CaseRun.mem_numbersFrom h run.target⟩)

theorem toNat_of_upper {n : Nat} (h : n ∈ uppers) : (Char.ofNat n).toNat = n :=
  Codec.Utf16.toNat_ofNat (upper_valid n h)

/-- The small letters of the first 128 characters are a run like any other. -/
theorem toUpper_cases (c : Char) : c.toUpper = c ∨ c.toNat ∈ lowers ∧ c.toUpper.toNat ∈ uppers := by
  by_cases hsmall : 'a'.val ≤ c.val ∧ c.val ≤ 'z'.val
  · have hrange : 97 ≤ c.toNat ∧ c.toNat ≤ 122 :=
      ⟨UInt32.le_iff_toNat_le.1 hsmall.1, UInt32.le_iff_toNat_le.1 hsmall.2⟩
    have hrun : (⟨0x61, 0x7a, 1, 0x41⟩ : CaseRun) ∈ caseRuns := List.mem_cons_self ..
    have hholds : CaseRun.holds ⟨0x61, 0x7a, 1, 0x41⟩ c.toNat = true := by
      unfold CaseRun.holds
      simp only [Bool.and_eq_true, decide_eq_true_eq, beq_iff_eq]
      exact ⟨hrange, Nat.mod_one _⟩
    have hupper : c.toUpper.toNat = 0x41 + (c.toNat - 0x61) := by
      unfold Char.toUpper
      rw [dif_pos hsmall]
      show (c.val + ('A'.val - 'a'.val)).toNat = _
      rw [UInt32.toNat_add]
      show (c.toNat + 4294967264) % 4294967296 = _
      omega
    exact .inr ⟨mem_lowers_of_holds hrun hholds, hupper ▸ mem_uppers_of_holds hrun hholds⟩
  · refine .inl ?_
    unfold Char.toUpper
    rw [dif_neg hsmall]

/-- A character is its own upper case, or a letter that is mapped to letters. -/
theorem upperChar_cases (c : Char) : upperChar c = [c] ∨
    c.toNat ∈ lowers ∧ upperChar c ≠ [] ∧ ∀ d ∈ upperChar c, d.toNat ∈ uppers := by
  unfold upperChar
  split
  · rcases toUpper_cases c with hsame | ⟨hlower, hupper⟩
    · exact .inl (by rw [hsame])
    · refine .inr ⟨hlower, List.cons_ne_nil _ _, fun d hd => ?_⟩
      rwa [List.mem_singleton.1 hd]
  · split
    · rename_i number image hfind
      have hrow : (number, image) ∈ wideUppers := List.mem_of_find?_eq_some hfind
      have hnumber : number = c.toNat := by simpa using List.find?_some hfind
      refine .inr ⟨?_, ?_, fun d hd => ?_⟩
      · exact List.mem_append_right _ (List.mem_map.2 ⟨_, hrow, hnumber⟩)
      · exact fun h => wide_ne_nil _ hrow (List.map_eq_nil_iff.1 h)
      · obtain ⟨n, hn, rfl⟩ := List.mem_map.1 hd
        have hupper : n ∈ uppers := List.mem_append_right _ (List.mem_flatMap.2 ⟨_, hrow, hn⟩)
        rwa [toNat_of_upper hupper]
    · split
      · rename_i run hfind
        have hrun : run ∈ caseRuns := List.mem_of_find?_eq_some hfind
        have hholds : run.holds c.toNat = true := by
          simpa using List.find?_some hfind
        have hupper := mem_uppers_of_holds hrun hholds
        refine .inr ⟨mem_lowers_of_holds hrun hholds, List.cons_ne_nil _ _, fun d hd => ?_⟩
        rwa [List.mem_singleton.1 hd, toNat_of_upper hupper]
      · exact .inl rfl

theorem upperChar_ne_nil (c : Char) : upperChar c ≠ [] := by
  rcases upperChar_cases c with hsame | ⟨-, hne, -⟩
  · rw [hsame]
    exact List.cons_ne_nil _ _
  · exact hne

/-- What is upper case stays as it is. -/
theorem upperChar_of_mem {c d : Char} (h : d ∈ upperChar c) : upperChar d = [d] := by
  rcases upperChar_cases c with hsame | ⟨-, -, huppers⟩
  · rw [hsame, List.mem_singleton] at h
    rwa [h]
  · exact (upperChar_cases d).resolve_right fun hlower => not_lower_of_upper (huppers d h) hlower.1

/-- What is not blank does not become blank. -/
theorem not_blank_of_mem {c d : Char} (hc : isBlank c = false) (h : d ∈ upperChar c) : isBlank d = false := by
  rcases upperChar_cases c with hsame | ⟨-, -, huppers⟩
  · rw [hsame, List.mem_singleton] at h
    rwa [h]
  · rw [Bool.eq_false_iff]
    exact fun hblank => not_blank_of_upper (huppers d h) (mem_blanks hblank)

theorem upper_upper (s : String) : upper (upper s) = upper s := by
  have hagain : ∀ c, (upperChar c).flatMap upperChar = upperChar c := by
    intro c
    calc (upperChar c).flatMap upperChar
        = (upperChar c).flatMap ([·]) := List.flatMap_congr fun d hd => upperChar_of_mem hd
      _ = upperChar c := List.flatMap_singleton' _
  unfold upper
  rw [String.toList_ofList, List.flatMap_assoc]
  simp only [hagain]

/-! ## Trimmed texts -/

/-- A text that neither starts nor ends with a blank character. -/
structure Trimmed (cs : List Char) : Prop where
  first : ∀ c ∈ cs.head?, isBlank c = false
  last : ∀ c ∈ cs.getLast?, isBlank c = false

theorem trimmed_trimChars (cs : List Char) : Trimmed (trimChars cs) := by
  constructor
  · intro c hc
    obtain ⟨later, hlater⟩ : trimChars cs <+: cs.dropWhile isBlank := List.rdropWhile_prefix isBlank _
    have hhead := List.head?_dropWhile_not isBlank cs
    rw [← hlater, List.head?_append, hc] at hhead
    exact hhead
  · intro c hc
    obtain ⟨hne, rfl⟩ := List.mem_getLast?_eq_getLast hc
    exact Bool.eq_false_iff.2 (List.rdropWhile_last_not isBlank _ hne)

theorem Trimmed.trimChars_eq {cs : List Char} (h : Trimmed cs) : trimChars cs = cs := by
  have hstart : cs.dropWhile isBlank = cs := by
    cases cs with
    | nil => rfl
    | cons c rest => exact List.dropWhile_cons_of_neg (Bool.eq_false_iff.1 (h.first c rfl))
  show List.rdropWhile isBlank (cs.dropWhile isBlank) = cs
  rw [hstart, List.rdropWhile_eq_self_iff]
  exact fun hne => Bool.eq_false_iff.1 (h.last _ (List.getLast?_eq_some_getLast hne))

/-- Upper case keeps a text trimmed. -/
theorem Trimmed.flatMap_upperChar {cs : List Char} (h : Trimmed cs) : Trimmed (cs.flatMap upperChar) := by
  constructor
  · intro d hd
    cases cs with
    | nil => cases hd
    | cons c rest =>
      obtain ⟨first, more, hupper⟩ := List.exists_cons_of_ne_nil (upperChar_ne_nil c)
      rw [List.flatMap_cons, hupper] at hd
      cases hd
      exact not_blank_of_mem (h.first c rfl) (hupper ▸ List.mem_cons_self ..)
  · intro d hd
    rcases List.eq_nil_or_concat' cs with rfl | ⟨before, c, rfl⟩
    · cases hd
    · rw [List.flatMap_append, List.flatMap_singleton, List.getLast?_append,
        List.getLast?_eq_some_getLast (upperChar_ne_nil c)] at hd
      cases hd
      exact not_blank_of_mem (h.last c (by simp)) (List.getLast_mem _)

end Text

namespace Code

/-- The normal form of a code is normal. -/
theorem normalize_normalize (s : String) : normalize (normalize s) = normalize s := by
  have htrimmed : (Text.upper (Text.trim s)).toList = (Text.trimChars s.toList).flatMap Text.upperChar := by
    unfold Text.upper Text.trim
    rw [String.toList_ofList, String.toList_ofList]
  have htrim : Text.trim (Text.upper (Text.trim s)) = Text.upper (Text.trim s) := by
    rw [← String.toList_inj, Text.trim, String.toList_ofList, htrimmed,
      (Text.trimmed_trimChars s.toList).flatMap_upperChar.trimChars_eq]
  show Text.upper (Text.trim (Text.upper (Text.trim s))) = Text.upper (Text.trim s)
  rw [htrim, Text.upper_upper]

end Code

end Amend
