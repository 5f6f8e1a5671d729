/-
Blocks of equal lines. However lines are matched, the blocks that are found follow each other through both
lists and each has the same lines in both. Lines keep their ends, so texts with the same lines are the same.
-/
import Amend.Diff.Hunk
import Amend.Text.Lines
import Mathlib.Data.List.Basic

namespace Amend

/-! ## Lines -/

namespace Text

/-- Lines put together again are the text. -/
theorem flatten_linesFrom (line cs : List Char) : (linesFrom line cs).flatten = line.reverse ++ cs := by
  fun_induction linesFrom line cs with
  | case1 line =>
    rename_i hempty
    simp [List.isEmpty_iff.1 hempty]
  | case2 line => simp
  | case3 line rest ih => simp [ih]
  | case4 line c rest hne hend ih => simp [ih]
  | case5 line c rest hne hend ih => simp [ih]

theorem join_lines (s : String) : String.join (lines s) = s := by
  have hjoin : ∀ rows : List (List Char), String.join (rows.map String.ofList) = String.ofList rows.flatten := by
    intro rows
    induction rows with
    | nil => rfl
    | cons row rows ih => rw [List.map_cons, String.join_cons, ih, List.flatten_cons, String.ofList_append]
  unfold lines
  rw [hjoin, flatten_linesFrom, List.reverse_nil, List.nil_append, String.ofList_toList]

theorem lines_injective {s t : String} (h : lines s = lines t) : s = t := by
  rw [← join_lines s, h, join_lines]

end Text

namespace Diff

/-! ## The longest block -/

/-- The lines of a block are the same in both lists. -/
def Block.Matches (p : Pair) (m : Block) : Prop :=
  ∀ k < m.size, p.same (m.left + k) (m.right + k) = true

/-- A block lies within two ranges. -/
structure Block.Within (p : Pair) (aLow aHigh bLow bHigh : Nat) (m : Block) : Prop where
  left : aLow ≤ m.left
  leftStop : m.left + m.size ≤ aHigh
  right : bLow ≤ m.right
  rightStop : m.right + m.size ≤ bHigh
  lines : m.Matches p

namespace Pair

section Longest

variable {p : Pair} {aLow aHigh bLow bHigh i j : Nat}

/-- Blocks of these lengths end right before line `i` and right before `j` and the lines after it. -/
def Ends (p : Pair) (aLow bLow i : Nat) : Nat → List Nat → Prop
  | _, [] => True
  | j, n :: rest => Block.Within p aLow i bLow j ⟨i - n, j - n, n⟩ ∧ Ends p aLow bLow i (j + 1) rest

theorem ends_take {lengths : List Nat} : ∀ {j width : Nat}, Ends p aLow bLow i j lengths →
    Ends p aLow bLow i j (lengths.take width) := by
  induction lengths with
  | nil => exact fun _ => by simp [Ends]
  | cons n rest ih =>
    intro j width h
    cases width with
    | zero => exact trivial
    | succ width => exact ⟨h.1, ih h.2⟩

theorem within_zero (ha : aLow ≤ i) (hb : bLow ≤ j) : Block.Within p aLow i bLow j ⟨i - 0, j - 0, 0⟩ :=
  ⟨ha, Nat.le_refl i, hb, Nat.le_refl j, fun _ hk => absurd hk (Nat.not_lt_zero _)⟩

theorem ends_replicate (ha : aLow ≤ i) : ∀ (width : Nat) {j : Nat}, bLow ≤ j →
    Ends p aLow bLow i j (List.replicate width 0)
  | 0, _, _ => trivial
  | width + 1, _, hb => ⟨within_zero ha hb, ends_replicate ha width (Nat.le_succ_of_le hb)⟩

/-- A block that ends before two equal lines can be continued by them. -/
theorem within_succ {n : Nat} (h : Block.Within p aLow i bLow j ⟨i - n, j - n, n⟩) (hsame : p.same i j = true) :
    Block.Within p aLow (i + 1) bLow (j + 1) ⟨i + 1 - (n + 1), j + 1 - (n + 1), n + 1⟩ := by
  obtain ⟨hleft, hleftStop, hright, hrightStop, hlines⟩ := h
  simp only at hleft hleftStop hright hrightStop
  refine ⟨by simp only; omega, by simp only; omega, by simp only; omega, by simp only; omega, ?_⟩
  intro k hk
  simp only at hk ⊢
  rw [Nat.add_sub_add_right, Nat.add_sub_add_right]
  rcases Nat.lt_succ_iff_lt_or_eq.1 hk with hk | rfl
  · exact hlines k hk
  · rwa [show i - k + k = i by omega, show j - k + k = j by omega]

theorem ends_row {lengths : List Nat} : ∀ {j : Nat}, Ends p aLow bLow i j lengths →
    Ends p aLow bLow (i + 1) (j + 1) (p.row i j lengths) := by
  induction lengths with
  | nil => exact fun _ => trivial
  | cons n rest ih =>
    intro j h
    refine ⟨?_, ih h.2⟩
    split
    · rename_i hcond
      exact within_succ h.1 (Bool.and_eq_true_iff.1 hcond).2
    · have ha : aLow ≤ i - n := h.1.left
      have hb : bLow ≤ j - n := h.1.right
      exact within_zero (by omega) (by omega)

theorem length_row (p : Pair) (i : Nat) : ∀ (j : Nat) (lengths : List Nat), (p.row i j lengths).length = lengths.length
  | _, [] => rfl
  | j, _ :: rest => congrArg (· + 1) (length_row p i (j + 1) rest)

theorem within_better (hi : i < aHigh) {lengths : List Nat} : ∀ {j : Nat} {best : Block},
    Ends p aLow bLow (i + 1) (j + 1) lengths → j + lengths.length ≤ bHigh →
    best.Within p aLow aHigh bLow bHigh → (better i best j lengths).Within p aLow aHigh bLow bHigh := by
  induction lengths with
  | nil => exact fun _ _ hbest => hbest
  | cons n rest ih =>
    intro j best h hj hbest
    rw [List.length_cons] at hj
    refine ih h.2 (by omega) ?_
    split
    · obtain ⟨hleft, hleftStop, hright, hrightStop, hlines⟩ := h.1
      exact ⟨hleft, Nat.le_trans hleftStop hi, hright, Nat.le_trans hrightStop (by omega), hlines⟩
    · exact hbest

/-- The best block stays within the ranges while the lines of the first list are gone through. -/
theorem within_scan {width : Nat} (hwidth : bLow + width ≤ bHigh) : ∀ (count : Nat) {i : Nat} {above : List Nat}
    {best : Block}, aLow ≤ i → i + count ≤ aHigh → Ends p aLow bLow i (bLow + 1) above →
    best.Within p aLow aHigh bLow bHigh → (p.scan bLow width count i above best).Within p aLow aHigh bLow bHigh := by
  intro count
  induction count with
  | zero => exact fun _ _ _ hbest => hbest
  | succ count ih =>
    intro i above best hlow hhigh habove hbest
    have hstart : Ends p aLow bLow i bLow ((0 :: above).take width) :=
      ends_take ⟨within_zero hlow (Nat.le_refl bLow), habove⟩
    have hrow := ends_row hstart
    have hlength : (p.row i bLow ((0 :: above).take width)).length ≤ width := by
      rw [length_row]
      exact List.length_take_le ..
    exact ih (Nat.le_succ_of_le hlow) (by omega) hrow (within_better (by omega) hrow (by omega) hbest)

theorem within_growBack : ∀ (room : Nat) {m : Block}, aLow + room ≤ m.left → bLow + room ≤ m.right →
    m.Within p aLow aHigh bLow bHigh → (p.growBack room m).Within p aLow aHigh bLow bHigh := by
  intro room
  induction room with
  | zero => exact fun _ _ h => h
  | succ room ih =>
    intro m ha hb h
    unfold growBack
    split
    · rename_i hcond
      simp only [Bool.and_eq_true, decide_eq_true_eq] at hcond
      obtain ⟨⟨hl, hr⟩, hsame⟩ := hcond
      have hstop := h.leftStop
      have hstop' := h.rightStop
      refine ih (by simp only; omega) (by simp only; omega) ⟨?_, ?_, ?_, ?_, ?_⟩
      · simp only; omega
      · simp only; omega
      · simp only; omega
      · simp only; omega
      · intro k hk
        cases k with
        | zero => exact hsame
        | succ k =>
          have hline := h.lines k (Nat.lt_of_succ_lt_succ hk)
          simp only
          rwa [show m.left - 1 + (k + 1) = m.left + k by omega, show m.right - 1 + (k + 1) = m.right + k by omega]
    · exact h

theorem within_growOn : ∀ (room : Nat) {m : Block}, m.left + m.size + room ≤ aHigh → m.right + m.size + room ≤ bHigh →
    m.Within p aLow aHigh bLow bHigh → (p.growOn room m).Within p aLow aHigh bLow bHigh := by
  intro room
  induction room with
  | zero => exact fun _ _ h => h
  | succ room ih =>
    intro m ha hb h
    unfold growOn
    split
    · rename_i hsame
      refine ih (by simp only; omega) (by simp only; omega) ⟨h.left, by simp only; omega, h.right, by simp only; omega, ?_⟩
      intro k hk
      rcases Nat.lt_succ_iff_lt_or_eq.1 hk with hk | rfl
      · exact h.lines k hk
      · exact hsame
    · exact h

/-- The best block before it grows. -/
theorem within_scan_start (ha : aLow ≤ aHigh) (hb : bLow ≤ bHigh) :
    (p.scan bLow (bHigh - bLow) (aHigh - aLow) aLow (List.replicate (bHigh - bLow) 0) ⟨aLow, bLow, 0⟩).Within p
      aLow aHigh bLow bHigh :=
  within_scan (Nat.le_of_eq (Nat.add_sub_cancel' hb)) (aHigh - aLow) (Nat.le_refl aLow)
    (Nat.le_of_eq (Nat.add_sub_cancel' ha)) (ends_replicate (Nat.le_refl aLow) (bHigh - bLow) (Nat.le_succ bLow))
    ⟨Nat.le_refl _, ha, Nat.le_refl _, hb, fun _ hk => absurd hk (Nat.not_lt_zero _)⟩

theorem within_longest (ha : aLow ≤ aHigh) (hb : bLow ≤ bHigh) :
    (p.longest aLow aHigh bLow bHigh).Within p aLow aHigh bLow bHigh := by
  have hscan := within_scan_start (p := p) ha hb
  simp only [longest]
  generalize p.scan bLow (bHigh - bLow) (aHigh - aLow) aLow (List.replicate (bHigh - bLow) 0) ⟨aLow, bLow, 0⟩ = best
    at hscan ⊢
  have hleft := hscan.left
  have hright := hscan.right
  have hback := within_growBack (min (best.left - aLow) (best.right - bLow)) (by omega) (by omega) hscan
  have hleftStop := hback.leftStop
  have hrightStop := hback.rightStop
  exact within_growOn _ (by omega) (by omega) hback

end Longest

/-! ## Blocks in order -/

section Blocks

variable {p : Pair} {aHigh bHigh : Nat}

/-- Blocks that follow each other from `i` and `j` on, up to the ends of two ranges. -/
def Chained (p : Pair) (aHigh bHigh : Nat) : Nat → Nat → List Block → Prop
  | i, j, [] => i ≤ aHigh ∧ j ≤ bHigh
  | i, j, m :: rest =>
    i ≤ m.left ∧ j ≤ m.right ∧ m.Matches p ∧ Chained p aHigh bHigh (m.left + m.size) (m.right + m.size) rest

theorem chained_le {blocks : List Block} : ∀ {i j : Nat}, Chained p aHigh bHigh i j blocks →
    i ≤ aHigh ∧ j ≤ bHigh := by
  induction blocks with
  | nil => exact fun h => h
  | cons m rest ih =>
    rintro i j ⟨hi, hj, -, hrest⟩
    obtain ⟨hleft, hright⟩ := ih hrest
    omega

theorem chained_append {m : Block} {later : List Block} (hm : m.Matches p)
    (hlater : Chained p aHigh bHigh (m.left + m.size) (m.right + m.size) later) {earlier : List Block} :
    ∀ {i j : Nat}, Chained p m.left m.right i j earlier → Chained p aHigh bHigh i j (earlier ++ m :: later) := by
  induction earlier with
  | nil => exact fun h => ⟨h.1, h.2, hm, hlater⟩
  | cons first rest ih => exact fun h => ⟨h.1, h.2.1, h.2.2.1, ih h.2.2.2⟩

theorem chained_blocks : ∀ (fuel : Nat) {aLow aHigh bLow bHigh : Nat}, aLow ≤ aHigh → bLow ≤ bHigh →
    Chained p aHigh bHigh aLow bLow (p.blocks fuel aLow aHigh bLow bHigh) := by
  intro fuel
  induction fuel with
  | zero => exact fun ha hb => ⟨ha, hb⟩
  | succ fuel ih =>
    intro aLow aHigh bLow bHigh ha hb
    have hm := within_longest (p := p) ha hb
    unfold blocks
    split
    · simp only
      split
      · exact ⟨ha, hb⟩
      · exact chained_append hm.lines (ih hm.leftStop hm.rightStop) (ih hm.left hm.right)
    · exact ⟨ha, hb⟩

/-- Blocks that touch are one block. -/
theorem chained_joined {blocks : List Block} : ∀ {i j : Nat}, Chained p aHigh bHigh i j blocks →
    Chained p aHigh bHigh i j (joined blocks) := by
  induction blocks with
  | nil => exact fun h => h
  | cons m rest ih =>
    rintro i j ⟨hi, hj, hm, hrest⟩
    have hjoined := ih hrest
    unfold joined
    generalize joined rest = others at hjoined ⊢
    rcases others with _ | ⟨next, more⟩
    · exact ⟨hi, hj, hm, hjoined⟩
    obtain ⟨hleft, hright, hnext, hmore⟩ := hjoined
    simp only
    split
    · rename_i htouch
      simp only [Bool.and_eq_true, decide_eq_true_eq] at htouch
      obtain ⟨hl, hr⟩ := htouch
      refine ⟨hi, hj, fun k hk => ?_, ?_⟩
      · by_cases hk' : k < m.size
        · exact hm k hk'
        · have hline := hnext (k - m.size) (by simp only at hk; omega)
          simp only
          rwa [show m.left + k = next.left + (k - m.size) by omega,
            show m.right + k = next.right + (k - m.size) by omega]
      · simp only
        rwa [show m.left + (m.size + next.size) = next.left + next.size by omega,
          show m.right + (m.size + next.size) = next.right + next.size by omega]
    · exact ⟨hi, hj, hm, hleft, hright, hnext, hmore⟩

theorem chained_matching (p : Pair) : Chained p p.a.size p.b.size 0 0 p.matching :=
  chained_joined (chained_blocks _ (Nat.zero_le _) (Nat.zero_le _))

end Blocks

end Pair

theorem getElem?_of_same {a b : List String} {i j : Nat} (h : (Pair.ofLines a b).same i j = true) : a[i]? = b[j]? := by
  unfold Pair.same Pair.ofLines at h
  simp only [List.getElem?_toArray] at h
  split at h
  · rename_i x y hx hy
    rw [hx, hy, eq_of_beq h]
  · cases h

end Diff

end Amend
