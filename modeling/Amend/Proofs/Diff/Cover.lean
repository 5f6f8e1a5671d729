/-
What lies outside of the hunks is the same in both lists. The stretches tile both lists from beginning to
end; trimming takes equal lines off at either end, cutting takes some out of the middle of a long equal
stretch, and a hunk that is left out shows no change. So the hunks and the equal lines between them still
cover both lists, and between two hunks there is at least one such line. Without any hunk the lists are equal.
-/
import Amend.Diff.Unified
import Amend.Proofs.Diff

namespace Amend.Diff

variable {a b : List String} {i j i' j' n m gap : Nat}

/-! ## Equal lines -/

/-- The `n` lines from `i` on in the first list are those from `j` on in the second. -/
structure SameLines (a b : List String) (i j n : Nat) : Prop where
  left : i + n ≤ a.length
  right : j + n ≤ b.length
  line : ∀ k < n, a[i + k]? = b[j + k]?

namespace SameLines

theorem zero (hi : i ≤ a.length) (hj : j ≤ b.length) : SameLines a b i j 0 :=
  ⟨hi, hj, fun _ hk => absurd hk (Nat.not_lt_zero _)⟩

theorem append (h : SameLines a b i j n) (hnext : SameLines a b (i + n) (j + n) m) : SameLines a b i j (n + m) where
  left := Nat.add_assoc i n m ▸ hnext.left
  right := Nat.add_assoc j n m ▸ hnext.right
  line := by
    intro k hk
    by_cases hkn : k < n
    · exact h.line k hkn
    · have hline := hnext.line (k - n) (by omega)
      rwa [show i + n + (k - n) = i + k by omega, show j + n + (k - n) = j + k by omega] at hline

theorem take (h : SameLines a b i j n) (hm : m ≤ n) : SameLines a b i j m :=
  ⟨Nat.le_trans (Nat.add_le_add_left hm i) h.left, Nat.le_trans (Nat.add_le_add_left hm j) h.right,
    fun k hk => h.line k (Nat.lt_of_lt_of_le hk hm)⟩

theorem drop (h : SameLines a b i j n) (hm : m ≤ n) : SameLines a b (i + m) (j + m) (n - m) where
  left := by have := h.left; omega
  right := by have := h.right; omega
  line := by
    intro k hk
    rw [Nat.add_assoc, Nat.add_assoc]
    exact h.line (m + k) (by omega)

theorem of_matches {block : Block} (h : block.Matches (Pair.ofLines a b)) (hl : block.left + block.size ≤ a.length)
    (hr : block.right + block.size ≤ b.length) : SameLines a b block.left block.right block.size :=
  ⟨hl, hr, fun k hk => getElem?_of_same (h k hk)⟩

end SameLines

/-! ## Stretches that tile the lists -/

/-- A stretch of two lists: the same lines in both, or lines of the first that become lines of the second. -/
inductive Stretch.Proper (a b : List String) : Stretch → Prop
  | equal {i j n : Nat} (same : SameLines a b i j n) : Proper a b ⟨true, i, i + n, j, j + n⟩
  | changed {i i' j j' : Nat} (hi : i ≤ i') (hi' : i' ≤ a.length) (hj : j ≤ j') (hj' : j' ≤ b.length) :
    Proper a b ⟨false, i, i', j, j'⟩

theorem ending_of_equal (i j n : Nat) : (⟨true, i, i + n, j, j + n⟩ : Stretch).ending =
    ⟨true, i + (n - context), i + n, j + (n - context), j + n⟩ := by
  simp only [Stretch.ending, Stretch.mk.injEq, true_and, and_true]
  omega

theorem beginning_of_equal (i j n : Nat) : (⟨true, i, i + n, j, j + n⟩ : Stretch).beginning =
    ⟨true, i, i + min n context, j, j + min n context⟩ := by
  simp only [Stretch.beginning, Stretch.mk.injEq, true_and]
  omega

/-- The last lines of a run of equal lines. -/
theorem SameLines.proper_drop (h : SameLines a b i j n) (hm : m ≤ n) :
    Stretch.Proper a b ⟨true, i + m, i + n, j + m, j + n⟩ := by
  have hproper := Stretch.Proper.equal (h.drop hm)
  rwa [Nat.add_assoc, Nat.add_assoc, Nat.add_sub_cancel' hm] at hproper

/-- Stretches that follow each other without a gap, from `i` and `j` to `i'` and `j'`. -/
def Tiles (a b : List String) : Nat → Nat → List Stretch → Nat → Nat → Prop
  | i, j, [], i', j' => i = i' ∧ j = j'
  | i, j, s :: rest, i', j' => s.left = i ∧ s.right = j ∧ s.Proper a b ∧ Tiles a b s.leftStop s.rightStop rest i' j'

theorem tiles_append {later : List Stretch} {k l : Nat} (hlater : Tiles a b i' j' later k l) {earlier : List Stretch} :
    ∀ {i j : Nat}, Tiles a b i j earlier i' j' → Tiles a b i j (earlier ++ later) k l := by
  induction earlier with
  | nil =>
    rintro i j ⟨rfl, rfl⟩
    exact hlater
  | cons s rest ih => exact fun ⟨hi, hj, hs, hrest⟩ => ⟨hi, hj, hs, ih hrest⟩

theorem tiles_singleton {s : Stretch} (h : s.Proper a b) : Tiles a b s.left s.right [s] s.leftStop s.rightStop :=
  ⟨rfl, rfl, h, rfl, rfl⟩

theorem Stretch.Proper.le {s : Stretch} (h : s.Proper a b) : s.left ≤ s.leftStop ∧ s.right ≤ s.rightStop := by
  cases h with
  | equal => exact ⟨Nat.le_add_right .., Nat.le_add_right ..⟩
  | changed hl _ hr _ => exact ⟨hl, hr⟩

theorem tiles_le {hunk : List Stretch} : ∀ {i j : Nat}, Tiles a b i j hunk i' j' → i ≤ i' ∧ j ≤ j' := by
  induction hunk with
  | nil => exact fun h => ⟨Nat.le_of_eq h.1, Nat.le_of_eq h.2⟩
  | cons s rest ih =>
    rintro i j ⟨rfl, rfl, hs, hrest⟩
    exact ⟨Nat.le_trans hs.le.1 (ih hrest).1, Nat.le_trans hs.le.2 (ih hrest).2⟩

theorem tiles_getLast {hunk : List Stretch} (hne : hunk ≠ []) : ∀ {i j : Nat}, Tiles a b i j hunk i' j' →
    ∃ last, hunk.getLast? = some last ∧ last.leftStop = i' ∧ last.rightStop = j' := by
  induction hunk with
  | nil => exact absurd rfl hne
  | cons s rest ih =>
    rintro i j ⟨rfl, rfl, hs, hrest⟩
    cases rest with
    | nil => exact ⟨s, rfl, hrest.1, hrest.2⟩
    | cons next more => exact ih (List.cons_ne_nil next more) hrest

theorem tiles_stretches {blocks : List Block} : ∀ {i j : Nat},
    Pair.Chained (Pair.ofLines a b) a.length b.length i j blocks →
    Tiles a b i j (stretches a.length b.length i j blocks) a.length b.length := by
  induction blocks with
  | nil =>
    rintro i j ⟨hi, hj⟩
    unfold stretches
    split
    · exact tiles_singleton (.changed hi (Nat.le_refl _) hj (Nat.le_refl _))
    · rename_i hend
      simp only [Bool.or_eq_true, decide_eq_true_eq, not_or, Nat.not_lt] at hend
      exact ⟨Nat.le_antisymm hi hend.1, Nat.le_antisymm hj hend.2⟩
  | cons m rest ih =>
    rintro i j ⟨hi, hj, hm, hrest⟩
    obtain ⟨hleft, hright⟩ := Pair.chained_le hrest
    have hblock := Stretch.Proper.equal (SameLines.of_matches hm hleft hright)
    unfold stretches
    split
    · exact ⟨rfl, rfl, .changed hi (by omega) hj (by omega), rfl, rfl, hblock, ih hrest⟩
    · rename_i hstart
      simp only [Bool.or_eq_true, decide_eq_true_eq, not_or, Nat.not_lt] at hstart
      exact ⟨Nat.le_antisymm hstart.1 hi, Nat.le_antisymm hstart.2 hj, hblock, ih hrest⟩

/-- Stretches without a change are equal lines. -/
theorem sameLines_of_tiles {hunk : List Stretch} : ∀ {i j : Nat}, i ≤ a.length → j ≤ b.length →
    Tiles a b i j hunk i' j' → (∀ s ∈ hunk, s.equal = true) →
    ∃ n, SameLines a b i j n ∧ i + n = i' ∧ j + n = j' := by
  induction hunk with
  | nil => exact fun hi hj h _ => ⟨0, .zero hi hj, h.1, h.2⟩
  | cons s rest ih =>
    rintro i j hi hj ⟨rfl, rfl, hs, hrest⟩ hequal
    cases hs with
    | changed => exact absurd (hequal _ (List.mem_cons_self ..)) Bool.false_ne_true
    | equal hsame =>
      obtain ⟨m, hlater, rfl, rfl⟩ := ih hsame.left hsame.right hrest fun s hs => hequal s (List.mem_cons_of_mem _ hs)
      exact ⟨_, hsame.append hlater, (Nat.add_assoc ..).symm, (Nat.add_assoc ..).symm⟩

/-! ## Trimming -/

theorem tiles_trimFirst {all : List Stretch} (hi : i ≤ a.length) (hj : j ≤ b.length) (h : Tiles a b i j all i' j') :
    ∃ n, SameLines a b i j n ∧ Tiles a b (i + n) (j + n) (trimFirst all) i' j' := by
  rcases all with _ | ⟨s, rest⟩
  · exact ⟨0, .zero hi hj, h⟩
  obtain ⟨rfl, rfl, hs, hrest⟩ := h
  cases hs with
  | changed hl hl' hr hr' => exact ⟨0, .zero hi hj, rfl, rfl, .changed hl hl' hr hr', hrest⟩
  | @equal i j n hsame =>
    refine ⟨n - context, hsame.take (Nat.sub_le ..), ?_⟩
    rw [trimFirst, if_pos rfl, ending_of_equal]
    exact ⟨rfl, rfl, hsame.proper_drop (Nat.sub_le ..), hrest⟩

theorem tiles_trimLast {all : List Stretch} (hi : i' ≤ a.length) (hj : j' ≤ b.length) : ∀ {i j : Nat},
    Tiles a b i j all i' j' →
    ∃ k l n, Tiles a b i j (trimLast all) k l ∧ SameLines a b k l n ∧ k + n = i' ∧ l + n = j' := by
  fun_induction trimLast all with
  | case1 => exact fun h => ⟨i', j', 0, h, .zero hi hj, rfl, rfl⟩
  | case2 s =>
    rintro i j ⟨rfl, rfl, hs, rfl, rfl⟩
    cases hs with
    | changed hl hl' hr hr' => exact ⟨_, _, 0, tiles_singleton (.changed hl hl' hr hr'), .zero hi hj, rfl, rfl⟩
    | @equal i j n hsame =>
      rw [if_pos rfl, beginning_of_equal]
      refine ⟨_, _, n - min n context, tiles_singleton (.equal (hsame.take (Nat.min_le_left ..))),
        hsame.drop (Nat.min_le_left ..), ?_, ?_⟩
      · simp only; omega
      · simp only; omega
  | case3 s next rest ih =>
    rintro i j ⟨hi, hj, hs, hrest⟩
    obtain ⟨k, l, n, htiles, htail⟩ := ih hrest
    exact ⟨k, l, n, ⟨hi, hj, hs, htiles⟩, htail⟩

/-! ## Cutting -/

/-- From `i` and `j` on the lists consist of the hunks and of lines between and around them that are the same in
both: at least `gap` before the first hunk, and at least one between two. -/
def Covers (a b : List String) : Nat → Nat → Nat → List Hunk → Prop
  | _, i, j, [] => ∃ n, SameLines a b i j n ∧ i + n = a.length ∧ j + n = b.length
  | gap, i, j, hunk :: rest => ∃ n i' j', gap ≤ n ∧ SameLines a b i j n ∧ Tiles a b (i + n) (j + n) hunk i' j' ∧
      i' ≤ a.length ∧ j' ≤ b.length ∧ Covers a b 1 i' j' rest

/-- Lines before the first hunk that are the same in both lists belong to its gap. -/
theorem Covers.extend {gap' : Nat} {hunks : List Hunk} (hgap : gap' ≤ n + gap) (hsame : SameLines a b i j n)
    (h : Covers a b gap (i + n) (j + n) hunks) : Covers a b gap' i j hunks := by
  cases hunks with
  | nil =>
    obtain ⟨m, hrest, hi, hj⟩ := h
    exact ⟨n + m, hsame.append hrest, by omega, by omega⟩
  | cons hunk rest =>
    obtain ⟨m, i', j', hm, hrest, htiles, hcovers⟩ := h
    rw [Nat.add_assoc, Nat.add_assoc] at htiles
    exact ⟨n + m, i', j', by omega, hsame.append hrest, htiles, hcovers⟩

theorem covers_cut (htail : ∃ n, SameLines a b i' j' n ∧ i' + n = a.length ∧ j' + n = b.length) {all : List Stretch} :
    ∀ {hunk : List Stretch} {i j k l : Nat}, i ≤ a.length → j ≤ b.length → Tiles a b i j hunk.reverse k l →
    Tiles a b k l all i' j' → Covers a b 0 i j (cut hunk all) := by
  induction all with
  | nil =>
    rintro hunk i j k l hi hj hhunk ⟨rfl, rfl⟩
    have hend := htail
    obtain ⟨n, -, hk, hl⟩ := hend
    exact ⟨0, k, l, Nat.le_refl 0, .zero hi hj, hhunk, by omega, by omega, htail⟩
  | cons s rest ih =>
    rintro hunk i j k l hi hj hhunk ⟨rfl, rfl, hs, hrest⟩
    unfold cut
    split
    · rename_i hlong
      cases hs with
      | changed => cases hlong
      | @equal p q n hsame =>
        simp only [Bool.true_and, decide_eq_true_eq] at hlong
        -- the lines from the end of its beginning to the start of its ending are left to the gap
        rw [beginning_of_equal, ending_of_equal]
        have hbefore := hsame.take (Nat.min_le_left n context)
        have huntil := hsame.take (Nat.sub_le n context)
        have hmiddle := huntil.drop (show min n context ≤ n - context by omega)
        have hending : Tiles a b (p + (n - context)) (q + (n - context))
            [⟨true, p + (n - context), p + n, q + (n - context), q + n⟩].reverse (p + n) (q + n) :=
          tiles_singleton (hsame.proper_drop (Nat.sub_le n context))
        have hlater := ih huntil.left huntil.right hending hrest
        refine ⟨0, _, _, Nat.le_refl 0, .zero hi hj, ?_, hbefore.left, hbefore.right, ?_⟩
        · rw [List.reverse_cons]
          exact tiles_append (tiles_singleton (.equal hbefore)) hhunk
        · refine Covers.extend (show 1 ≤ n - context - min n context + 0 by omega) hmiddle ?_
          rwa [Nat.add_assoc, Nat.add_assoc, Nat.add_sub_cancel' (by omega)]
    · refine ih hi hj ?_ hrest
      rw [List.reverse_cons]
      exact tiles_append (tiles_singleton hs) hhunk

theorem covers_filter {hunks : List Hunk} : ∀ {gap i j : Nat}, Covers a b gap i j hunks →
    Covers a b gap i j (hunks.filter Hunk.changes) := by
  induction hunks with
  | nil => exact fun h => h
  | cons hunk rest ih =>
    rintro gap i j ⟨n, i', j', hgap, hsame, htiles, hi, hj, hrest⟩
    rw [List.filter_cons]
    split
    · exact ⟨n, i', j', hgap, hsame, htiles, hi, hj, ih hrest⟩
    · rename_i hchanges
      have hequal : ∀ s ∈ hunk, s.equal = true := by simpa [Hunk.changes] using hchanges
      obtain ⟨m, hhunk, rfl, rfl⟩ := sameLines_of_tiles hsame.left hsame.right htiles hequal
      exact ((ih hrest).extend (Nat.le_add_left 1 m) hhunk).extend (Nat.le_add_right_of_le hgap) hsame

/-- The hunks of two lists and the equal lines around them make up both lists. -/
theorem covers_hunks (a b : List String) : Covers a b 0 0 0 (hunks a b) := by
  have hall := tiles_stretches (Pair.chained_matching (Pair.ofLines a b))
  obtain ⟨n, hlead, hfirst⟩ := tiles_trimFirst (Nat.zero_le _) (Nat.zero_le _) hall
  obtain ⟨k, l, m, hlast, htail⟩ := tiles_trimLast (Nat.le_refl _) (Nat.le_refl _) hfirst
  have hnone : Tiles a b (0 + n) (0 + n) [].reverse (0 + n) (0 + n) := ⟨rfl, rfl⟩
  have hcut := covers_cut ⟨m, htail⟩ hlead.left hlead.right hnone hlast
  exact covers_filter (hcut.extend (Nat.zero_le _) hlead)

theorem ne_nil_of_mem_hunks {hunk : Hunk} (h : hunk ∈ hunks a b) : hunk ≠ [] := by
  rintro rfl
  exact absurd (List.mem_filter.1 h).2 (by decide)

/-- Lists without hunks are equal. -/
theorem eq_of_hunks_eq_nil (h : hunks a b = []) : a = b := by
  have hcovers := covers_hunks a b
  rw [h] at hcovers
  obtain ⟨n, hsame, ha, hb⟩ := hcovers
  refine List.ext_getElem? fun k => ?_
  by_cases hk : k < n
  · have hline := hsame.line k hk
    rwa [Nat.zero_add] at hline
  · rw [List.getElem?_eq_none (by omega), List.getElem?_eq_none (by omega)]

/-- The diff between two texts that differ is not empty. -/
theorem unified_ne_empty (path : String) {before after : String} (h : before ≠ after) :
    unified path before after ≠ "" := by
  intro hempty
  refine h (Text.lines_injective (eq_of_hunks_eq_nil ?_))
  unfold unified unifiedLines at hempty
  rcases hh : hunks (Text.lines before) (Text.lines after) with _ | ⟨hunk, rest⟩
  · rfl
  · rw [hh] at hempty
    simp only [String.join_cons, String.append_eq_empty_iff] at hempty
    exact absurd hempty.1.2 (by decide)

end Amend.Diff
