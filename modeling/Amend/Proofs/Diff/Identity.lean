/-
A text does not differ from itself. Which lines are looked for depends on the lines only, so a block off
the diagonal is at most as long as the ones on the diagonal that end at either of its last lines; the
search reaches one of these first and never leaves the diagonal. What it finds there grows over all the
lines, popular ones too.
-/
import Amend.Proofs.Diff.Cover

namespace Amend.Diff

/-! ## Two lists that are the same -/

/-- A pair of a list and the list itself: a line equals itself, and of equal lines either both are looked for
or neither is. -/
structure Pair.Mirrored (p : Pair) (size : Nat) : Prop where
  left : p.a.size = size
  right : p.b.size = size
  same_self : ∀ i < size, p.same i i = true
  sought_eq : ∀ {i j : Nat}, p.same i j = true → p.sought.getD i false = p.sought.getD j false

theorem mirrored_ofLines (lines : List String) : (Pair.ofLines lines lines).Mirrored lines.length where
  left := List.size_toArray ..
  right := List.size_toArray ..
  same_self := by
    intro i hi
    simp [Pair.same, Pair.ofLines, List.getElem?_eq_getElem hi]
  sought_eq := by
    intro i j hsame
    have hline := getElem?_of_same hsame
    simp only [Pair.ofLines, Array.getD_eq_getD_getElem?, Array.getElem?_map, List.getElem?_toArray, hline]

namespace Pair

section Mirrored

variable {p : Pair} {size i j : Nat}

/-- How many lines right before line `i` are looked for. -/
def run (p : Pair) : Nat → Nat
  | 0 => 0
  | i + 1 => if p.sought.getD i false then run p i + 1 else 0

/-- Blocks of these lengths end right before line `i` and right before `j` and the lines after it; none is longer
than the run before either line, and on the diagonal the length is that of the run. -/
def Capped (p : Pair) (i : Nat) : Nat → List Nat → Prop
  | _, [] => True
  | j, n :: rest => n ≤ p.run i ∧ n ≤ p.run j ∧ (i = j → n = p.run i) ∧ Capped p i (j + 1) rest

theorem capped_take {lengths : List Nat} : ∀ {j width : Nat}, Capped p i j lengths →
    Capped p i j (lengths.take width) := by
  induction lengths with
  | nil => exact fun _ => by simp [Capped]
  | cons n rest ih =>
    intro j width h
    cases width with
    | zero => exact trivial
    | succ width => exact ⟨h.1, h.2.1, h.2.2.1, ih h.2.2.2⟩

theorem capped_replicate : ∀ (width : Nat) {j : Nat}, Capped p 0 j (List.replicate width 0)
  | 0, _ => trivial
  | width + 1, _ => ⟨Nat.zero_le _, Nat.zero_le _, fun _ => rfl, capped_replicate width⟩

theorem capped_row (hp : p.Mirrored size) {lengths : List Nat} : ∀ {j : Nat}, Capped p i j lengths →
    j + lengths.length ≤ size → Capped p (i + 1) (j + 1) (p.row i j lengths) := by
  induction lengths with
  | nil => exact fun _ _ => trivial
  | cons n rest ih =>
    rintro j ⟨hrow, hcolumn, hdiagonal, hrest⟩ hsize
    rw [List.length_cons] at hsize
    refine ⟨?_, ?_, ?_, ih hrest (by omega)⟩
    · split
      · rename_i hcond
        obtain ⟨hsought, hsame⟩ := Bool.and_eq_true_iff.1 hcond
        rw [run, hp.sought_eq hsame, if_pos hsought]
        exact Nat.succ_le_succ hrow
      · exact Nat.zero_le _
    · split
      · rename_i hcond
        rw [run, if_pos (Bool.and_eq_true_iff.1 hcond).1]
        exact Nat.succ_le_succ hcolumn
      · exact Nat.zero_le _
    · intro hij
      obtain rfl : i = j := Nat.succ.inj hij
      rw [hp.same_self i (by omega), Bool.and_true, run, hdiagonal rfl]

end Mirrored

end Pair

/-! ## The search on the diagonal -/

/-- A block on the diagonal that is as long as every run before line `i` or an earlier one. -/
structure Block.Leads (p : Pair) (i : Nat) (m : Block) : Prop where
  diagonal : m.left = m.right
  runs : ∀ k ≤ i, p.run k ≤ m.size

namespace Pair

section Mirrored

variable {p : Pair} {size i : Nat}

/-- Left of the diagonal nothing is longer than what was found in earlier rows, and right of it nothing is longer
than what is on it. -/
theorem leads_better {lengths : List Nat} : ∀ {j : Nat} {best : Block}, Capped p (i + 1) (j + 1) lengths →
    best.Leads p i → (i < j → p.run (i + 1) ≤ best.size) → i < j + lengths.length →
    (better i best j lengths).Leads p (i + 1) := by
  induction lengths with
  | nil =>
    intro j best _ hbest hlater hi
    refine ⟨hbest.diagonal, fun k hk => ?_⟩
    rcases Nat.le_succ_iff.1 hk with hk | rfl
    · exact hbest.runs k hk
    · exact hlater hi
  | cons n rest ih =>
    rintro j best ⟨hrow, hcolumn, hdiagonal, hrest⟩ hbest hlater hi
    rw [List.length_cons] at hi
    have hleads : (if n > best.size then ⟨i + 1 - n, j + 1 - n, n⟩ else best : Block).Leads p i ∧
        (i < j + 1 → p.run (i + 1) ≤ (if n > best.size then ⟨i + 1 - n, j + 1 - n, n⟩ else best : Block).size) := by
      rcases Nat.lt_trichotomy j i with hj | rfl | hj
      -- the run before line `j + 1` was met on the diagonal in an earlier row
      · rw [if_neg (Nat.not_lt.2 (Nat.le_trans hcolumn (hbest.runs (j + 1) hj)))]
        exact ⟨hbest, fun _ => by omega⟩
      · rw [hdiagonal rfl]
        split
        · rename_i hmore
          exact ⟨⟨rfl, fun k hk => Nat.le_trans (hbest.runs k hk) (Nat.le_of_lt hmore)⟩, fun _ => Nat.le_refl _⟩
        · rename_i hmore
          exact ⟨hbest, fun _ => Nat.not_lt.1 hmore⟩
      -- the run before line `i + 1` has just been met on the diagonal of this row
      · rw [if_neg (Nat.not_lt.2 (Nat.le_trans hrow (hlater hj)))]
        exact ⟨hbest, fun _ => hlater hj⟩
    exact ih hrest hleads.1 hleads.2 (by omega)

theorem leads_scan (hp : p.Mirrored size) : ∀ (count : Nat) {i : Nat} {above : List Nat} {best : Block},
    i + count ≤ size → Capped p i 1 above → above.length = size → best.Leads p i →
    (p.scan 0 size count i above best).Leads p (i + count) := by
  intro count
  induction count with
  | zero => exact fun _ _ _ hbest => hbest
  | succ count ih =>
    intro i above best hcount habove hlength hbest
    have hstart : Capped p i 0 ((0 :: above).take size) :=
      capped_take ⟨Nat.zero_le _, Nat.zero_le _, fun hi => by rw [hi]; rfl, habove⟩
    have hstartLength : ((0 :: above).take size).length = size := by
      rw [List.length_take, List.length_cons, hlength]
      omega
    have hrow := capped_row hp hstart (by omega)
    have hrowLength : (p.row i 0 ((0 :: above).take size)).length = size := by rw [length_row, hstartLength]
    have hbetter := leads_better hrow hbest (fun hi => absurd hi (Nat.not_lt_zero _)) (by omega)
    have hrest := ih (by omega) hrow hrowLength hbetter
    rwa [Nat.add_right_comm, Nat.add_assoc] at hrest

theorem growBack_diagonal (hp : p.Mirrored size) : ∀ {room n : Nat}, room ≤ size →
    p.growBack room ⟨room, room, n⟩ = ⟨0, 0, n + room⟩ := by
  intro room
  induction room with
  | zero => exact fun _ => rfl
  | succ room ih =>
    intro n hroom
    have hsame : p.same (room + 1 - 1) (room + 1 - 1) = true := hp.same_self room hroom
    unfold growBack
    simp only [hsame, Nat.zero_lt_succ, decide_true, Bool.and_self, if_true]
    rw [Nat.add_sub_cancel, ih (Nat.le_of_succ_le hroom), Nat.add_right_comm, Nat.add_assoc]

theorem growOn_diagonal (hp : p.Mirrored size) : ∀ {room n : Nat}, n + room ≤ size →
    p.growOn room ⟨0, 0, n⟩ = ⟨0, 0, n + room⟩ := by
  intro room
  induction room with
  | zero => exact fun _ => rfl
  | succ room ih =>
    intro n hroom
    have hsame : p.same (0 + n) (0 + n) = true := hp.same_self (0 + n) (by omega)
    unfold growOn
    simp only [hsame, if_true]
    rw [ih (by omega), Nat.add_right_comm, Nat.add_assoc]

/-- In a list and itself the longest block is the whole list. -/
theorem longest_mirrored (hp : p.Mirrored size) : p.longest 0 size 0 size = ⟨0, 0, size⟩ := by
  have hnone : Block.Leads p 0 ⟨0, 0, 0⟩ := ⟨rfl, fun k hk => by rw [Nat.le_zero.1 hk]; exact Nat.le_refl 0⟩
  have hleads := leads_scan hp size (Nat.le_of_eq (Nat.zero_add size)) (capped_replicate size)
    List.length_replicate hnone
  have hwithin := within_scan_start (p := p) (Nat.zero_le size) (Nat.zero_le size)
  simp only [longest, Nat.sub_zero] at hwithin ⊢
  generalize p.scan 0 size size 0 (List.replicate size 0) ⟨0, 0, 0⟩ = best at hleads hwithin ⊢
  obtain ⟨left, right, n⟩ := best
  obtain rfl : left = right := hleads.diagonal
  have hstop : left + n ≤ size := hwithin.leftStop
  simp only [Nat.min_self]
  rw [growBack_diagonal hp (by omega)]
  simp only [Nat.zero_add, Nat.min_self]
  rw [growOn_diagonal hp (by omega), Nat.add_sub_cancel' (by omega)]

theorem matching_mirrored (hp : p.Mirrored size) :
    p.matching = if size = 0 then [] else [⟨0, 0, size⟩] := by
  have hempty : ∀ fuel i, p.blocks fuel i i i i = [] := by
    intro fuel i
    cases fuel with
    | zero => rfl
    | succ fuel => simp [blocks]
  unfold matching
  rw [hp.left, hp.right, blocks, longest_mirrored hp]
  rcases Nat.eq_zero_or_pos size with rfl | hsize
  · rfl
  · have hlines : (decide (0 < size) && decide (0 < size)) = true := by simp [hsize]
    have hne : size ≠ 0 := Nat.ne_of_gt hsize
    simp only [hlines, if_true, if_neg hne, hempty, Nat.zero_add, List.nil_append, joined]

end Mirrored

end Pair

/-! ## No hunks -/

/-- An equal stretch that is all there is shows no change, however it is cut. -/
theorem changes_of_equal {s : Stretch} (hs : s.equal = true) : (cut [] [s]).filter Hunk.changes = [] := by
  unfold cut
  split <;> simp [cut, Hunk.changes, Stretch.beginning, Stretch.ending, hs]

/-- A list and itself have no hunks. -/
theorem hunks_self (lines : List String) : hunks lines lines = [] := by
  unfold hunks
  simp only
  rw [Pair.matching_mirrored (mirrored_ofLines lines)]
  split
  · rename_i hempty
    rw [hempty]
    rfl
  · have hall : stretches lines.length lines.length 0 0 [⟨0, 0, lines.length⟩] =
        [⟨true, 0, lines.length, 0, lines.length⟩] := by simp [stretches]
    rw [hall]
    exact changes_of_equal rfl

theorem hunks_eq_nil_iff {a b : List String} : hunks a b = [] ↔ a = b :=
  ⟨eq_of_hunks_eq_nil, fun h => h ▸ hunks_self a⟩

end Amend.Diff
