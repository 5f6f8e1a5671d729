/-
The digits of numbers that were written. In base ten they are plain and give the number again; in base
sixteen each of them stands for its value.
-/
import Amend.Text.Digit
import Amend.Text.Hex

namespace Amend.Text

/-- A character that ASCII shows: one from the space to the tilde. -/
def Shown (c : Char) : Prop :=
  0x20 ≤ c.toNat ∧ c.toNat ≤ 0x7e

/-- Characters that ASCII shows. -/
def AllShown (cs : List Char) : Prop :=
  ∀ c ∈ cs, Shown c

instance (c : Char) : Decidable (Shown c) :=
  inferInstanceAs (Decidable (_ ∧ _))

-- the characters of the text are looked at, and not all that there are
instance (cs : List Char) : Decidable (AllShown cs) :=
  List.decidableBAll Shown cs

theorem allShown_append {cs ds : List Char} : AllShown (cs ++ ds) ↔ AllShown cs ∧ AllShown ds :=
  List.forall_mem_append

theorem allShown_cons {c : Char} {cs : List Char} : AllShown (c :: cs) ↔ Shown c ∧ AllShown cs :=
  List.forall_mem_cons

/-! ## Base ten -/

theorem shown_iff {c : Char} : Shown c ↔ (decide (' ' ≤ c) && decide (c ≤ '~')) = true := by
  rw [Bool.and_eq_true, decide_eq_true_eq, decide_eq_true_eq]
  exact Iff.rfl

theorem shown_of_isPlainDigit {c : Char} (h : isPlainDigit c = true) : Shown c := by
  unfold isPlainDigit at h
  rw [Bool.and_eq_true, decide_eq_true_eq, decide_eq_true_eq] at h
  have hlow : 0x30 ≤ c.toNat := h.1
  have hhigh : c.toNat ≤ 0x39 := h.2
  exact ⟨by omega, by omega⟩

/-- A digit is none of characters that are not digits. -/
theorem not_mem_of_isPlainDigit {c : Char} (h : isPlainDigit c = true) {cs : List Char}
    (hcs : cs.all (fun d => !isPlainDigit d) = true) : c ∉ cs := by
  intro hc
  have hnot := List.all_eq_true.1 hcs c hc
  rw [h] at hnot
  cases hnot

theorem isPlainDigit_of_mem_toDigits {n : Nat} {c : Char} (h : c ∈ Nat.toDigits 10 n) : isPlainDigit c = true :=
  Nat.isDigit_of_mem_toDigits (by decide) (by decide) h

theorem exists_cons_toDigits (n : Nat) : ∃ d ds, Nat.toDigits 10 n = d :: ds ∧ isPlainDigit d = true := by
  obtain ⟨d, ds, hn⟩ := List.exists_cons_of_ne_nil (Nat.toDigits_ne_nil (n := n) (b := 10))
  exact ⟨d, ds, hn, isPlainDigit_of_mem_toDigits (hn ▸ List.mem_cons_self)⟩

theorem plainNumber_toDigits (n : Nat) : plainNumber (Nat.toDigits 10 n) = n := by
  have hstep : (fun n (c : Char) => n * 10 + (c.toNat - 48)) = fun n c => 10 * n + (c.toNat - '0'.toNat) := by
    funext n c
    rw [Nat.mul_comm]
    rfl
  unfold plainNumber
  rw [hstep]
  exact Nat.ofDigitChars_ten_toDigits

/-- A whole number has its sign before its digits. -/
theorem toList_toString_int (n : Int) :
    (toString n).toList = (if n < 0 then ['-'] else []) ++ Nat.toDigits 10 n.natAbs := by
  cases n with
  | ofNat n =>
    have hpos : ¬ Int.ofNat n < 0 := Int.not_lt.2 (Int.natCast_nonneg n)
    rw [if_neg hpos]
    show (toString n).toList = Nat.toDigits 10 n
    rw [Nat.toString_eq_ofList_toDigits, String.toList_ofList]
  | negSucc n =>
    rw [if_pos (Int.negSucc_lt_zero n)]
    show ("-" ++ toString (n + 1)).toList = '-' :: Nat.toDigits 10 (n + 1)
    rw [Nat.toString_eq_ofList_toDigits, String.toList_append]
    exact congrArg ('-' :: ·) String.toList_ofList

/-- Only zero has a zero in front. -/
theorem head?_toDigits {n : Nat} (h : n ≠ 0) : (Nat.toDigits 10 n).head? ≠ some '0' := by
  have hdigits : ∀ d < 10, d ≠ 0 → Nat.digitChar d ≠ '0' := by decide
  induction n using Nat.strongRecOn with
  | ind n ih =>
    rw [Nat.toDigits_eq_if (by decide)]
    split
    · rename_i hn
      exact fun hhead => hdigits n hn h (Option.some.inj hhead)
    · have hrest := ih (n / 10) (by omega) (by omega)
      rw [List.head?_append]
      rcases hhead : (Nat.toDigits 10 (n / 10)).head? with _ | c
      · exact absurd (List.head?_eq_none_iff.1 hhead) Nat.toDigits_ne_nil
      · rwa [hhead] at hrest

theorem allShown_toString_int (n : Int) : AllShown (toString n).toList := by
  rw [toList_toString_int, allShown_append]
  refine ⟨?_, fun c hc => shown_of_isPlainDigit (isPlainDigit_of_mem_toDigits hc)⟩
  split <;> decide

/-! ## Base sixteen -/

theorem exists_digitChar {n : Nat} {c : Char} (h : c ∈ Nat.toDigits 16 n) : ∃ d < 16, c = Nat.digitChar d := by
  induction n using Nat.strongRecOn with
  | ind n ih =>
    rw [Nat.toDigits_eq_if (by decide)] at h
    split at h
    · rename_i hn
      exact ⟨n, hn, List.mem_singleton.1 h⟩
    · rcases List.mem_append.1 h with h | h
      · exact ih (n / 16) (by omega) h
      · exact ⟨n % 16, by omega, List.mem_singleton.1 h⟩

theorem exists_of_mem_hex {width n : Nat} {c : Char} (h : c ∈ (hex width n).toList) :
    ∃ d < 16, c = Nat.digitChar d := by
  unfold hex at h
  rw [String.toList_ofList, List.mem_append] at h
  rcases h with h | h
  · exact ⟨0, by decide, List.eq_of_mem_replicate h⟩
  · exact exists_digitChar h

theorem allShown_hex (width n : Nat) : AllShown (hex width n).toList := by
  have hdigits : ∀ d < 16, Shown (Nat.digitChar d) := by decide
  intro c hc
  obtain ⟨d, hd, rfl⟩ := exists_of_mem_hex hc
  exact hdigits d hd

theorem allShown_hexUpper (width n : Nat) : AllShown (hexUpper width n).toList := by
  have hdigits : ∀ d < 16, Shown (Nat.digitChar d).toUpper := by decide +kernel
  intro c hc
  unfold hexUpper at hc
  rw [String.toList_ofList] at hc
  obtain ⟨c', hc', rfl⟩ := List.mem_map.1 hc
  obtain ⟨d, hd, rfl⟩ := exists_of_mem_hex hc'
  exact hdigits d hd

theorem hexValue?_digitChar : ∀ d < 16, hexValue? (Nat.digitChar d) = some d := by decide

/-- Another digit at the end. -/
theorem hex_succ (width n : Nat) :
    (hex (width + 2) n).toList = (hex (width + 1) (n / 16)).toList ++ [Nat.digitChar (n % 16)] := by
  unfold hex
  simp only [String.toList_ofList]
  by_cases hn : n < 16
  · rw [Nat.toDigits_of_lt_base hn, Nat.div_eq_of_lt hn, Nat.mod_eq_of_lt hn, Nat.toDigits_of_lt_base (by decide)]
    show List.replicate (width + 1) '0' ++ _ = (List.replicate width '0' ++ ['0']) ++ _
    rw [List.replicate_succ']
  · rw [Nat.toDigits_of_base_le (by decide) (Nat.le_of_not_lt hn), List.append_assoc, List.length_append,
      List.length_singleton, Nat.succ_sub_succ]

/-- The four digits of a sixteen-bit number. -/
theorem hex_four {n : Nat} (h : n < 0x10000) : (hex 4 n).toList =
    [Nat.digitChar (n / 4096), Nat.digitChar (n / 256 % 16), Nat.digitChar (n / 16 % 16), Nat.digitChar (n % 16)] := by
  have hfirst : (hex 1 (n / 4096)).toList = [Nat.digitChar (n / 4096)] := by
    unfold hex
    rw [String.toList_ofList, Nat.toDigits_of_lt_base (by omega)]
    rfl
  have htwo : n / 16 / 16 = n / 256 := Nat.div_div_eq_div_mul ..
  have hthree : n / 16 / 16 / 16 = n / 4096 := by rw [Nat.div_div_eq_div_mul, Nat.div_div_eq_div_mul]
  rw [hex_succ, hex_succ, hex_succ, hthree, htwo, hfirst]
  rfl

end Amend.Text
