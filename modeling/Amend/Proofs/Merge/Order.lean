/-
The order in which edits are given. A merge ranks the edits by their starts and makes one pass over them, and
only among edits of one start does the order given enter the ranking. So edits of different starts can be
given in any order; and the edits that are left out play no part: merging the applied ones alone, in any
order, gives the same text.
-/
import Amend.Proofs.Merge.Splice

namespace Amend.Merge

/-! ## Sorted lists -/

section Level

variable {α : Type} {key : α → Int} {items items' : List α}

theorem mem_of_level (hlevel : ∀ k, items.filter (key · = k) = items'.filter (key · = k)) {a : α} (ha : a ∈ items) :
    a ∈ items' := by
  have hmem : a ∈ items.filter (key · = key a) := List.mem_filter.2 ⟨ha, decide_eq_true rfl⟩
  rw [hlevel] at hmem
  exact List.mem_of_mem_filter hmem

theorem key_le_head {first a : α} {rest : List α} (hsorted : (first :: rest).Pairwise fun a b => key b ≤ key a)
    (ha : a ∈ first :: rest) : key a ≤ key first := by
  rcases List.mem_cons.1 ha with rfl | ha
  · exact Int.le_refl _
  · exact (List.pairwise_cons.1 hsorted).1 a ha

/-- Two lists sorted by a key are equal if they have the same items of each key, in the same order. -/
theorem eq_of_sorted (hsorted : items.Pairwise fun a b => key b ≤ key a)
    (hsorted' : items'.Pairwise fun a b => key b ≤ key a)
    (hlevel : ∀ k, items.filter (key · = k) = items'.filter (key · = k)) : items = items' := by
  induction items generalizing items' with
  | nil =>
    refine (List.eq_nil_iff_forall_not_mem.2 fun a ha => ?_).symm
    exact List.not_mem_nil (mem_of_level (fun k => (hlevel k).symm) ha)
  | cons first rest ih =>
    rcases items' with _ | ⟨first', rest'⟩
    · exact absurd (mem_of_level hlevel (List.mem_cons_self ..)) List.not_mem_nil
    · have hle := key_le_head hsorted (mem_of_level (fun k => (hlevel k).symm) (List.mem_cons_self ..))
      have hge := key_le_head hsorted' (mem_of_level hlevel (List.mem_cons_self ..))
      have hkey : key first' = key first := Int.le_antisymm hle hge
      -- both first items lead the items of their key
      have hhead := hlevel (key first)
      rw [List.filter_cons, if_pos (decide_eq_true rfl), List.filter_cons, if_pos (decide_eq_true hkey)] at hhead
      obtain rfl := (List.cons.inj hhead).1
      congr 1
      refine ih (List.pairwise_cons.1 hsorted).2 (List.pairwise_cons.1 hsorted').2 fun k => ?_
      have hk := hlevel k
      rw [List.filter_cons, List.filter_cons] at hk
      split at hk
      · exact (List.cons.inj hk).2
      · exact hk

end Level

/-! ## Edits by rank -/

/-- The edits by rank: higher starts first, and those of one start in the order given. -/
def ranked (edits : List Edit) : List Edit :=
  edits.mergeSort fun a b => b.span.start ≤ a.span.start

theorem filter_ranked (edits : List Edit) (start : Int) :
    (ranked edits).filter (·.span.start = start) = edits.filter (·.span.start = start) :=
  filter_sorted (fun e : Edit => e.span.start) edits start

/-- The edits that one pass over ranked edits takes. -/
def winners (boundary : Int) (taken : Bool) : List Edit → List Edit
  | [] => []
  | e :: rest =>
    if e.span.stop > boundary || (taken && e.span.start == boundary) then winners boundary taken rest
    else e :: winners e.span.start true rest

theorem numbered_map {α β : Type} (f : α → β) (items : List α) : ∀ i,
    numbered i (items.map f) = (numbered i items).map (Prod.map id f) := by
  induction items with
  | nil => intro i; rfl
  | cons a rest ih =>
    intro i
    rw [List.map_cons, numbered, numbered, List.map_cons, ih]
    rfl

/-- The rows of a ranking are the ranked edits with their numbers. -/
theorem exists_rows (edits : List Edit) : ∃ rows : List (Nat × Edit),
    byPriority (edits.map (·.span)) = rows.map (Prod.map id (·.span)) ∧ rows.map (·.2) = ranked edits ∧
      ∀ row ∈ rows, edits[row.1]? = some row.2 := by
  refine ⟨(numbered 0 edits).mergeSort fun a b => b.2.span.start ≤ a.2.span.start, ?_, ?_, fun row hrow => ?_⟩
  · unfold byPriority
    rw [numbered_map]
    symm
    exact List.map_mergeSort fun _ _ _ _ => rfl
  · unfold ranked
    conv_rhs => rw [← map_snd_numbered edits 0]
    exact List.map_mergeSort fun _ _ _ _ => rfl
  · have hmem := (List.mergeSort_perm _ _).mem_iff.1 hrow
    simpa using (mem_numbered (i := row.1)).1 hmem

/-- The pass over numbered spans takes the numbers of the edits that the pass over edits takes. -/
theorem pick_sweep {edits : List Edit} (rows : List (Nat × Edit)) : ∀ boundary taken,
    (∀ row ∈ rows, edits[row.1]? = some row.2) →
    pick edits (sweep boundary taken (rows.map (Prod.map id (·.span)))).accepted =
      winners boundary taken (rows.map (·.2)) := by
  induction rows with
  | nil => intro _ _ _; rfl
  | cons row rest ih =>
    intro boundary taken hrows
    obtain ⟨hrow, hrest⟩ := List.forall_mem_cons.1 hrows
    rw [List.map_cons, List.map_cons, Prod.map, sweep, winners]
    split
    · exact ih boundary taken hrest
    · rw [← ih row.2.span.start true hrest]
      show List.filterMap _ (row.1 :: _) = _
      rw [List.filterMap_cons, hrow]
      rfl

/-- The applied edits of a merge are those that one pass over the ranked edits takes. -/
theorem applied_eq_winners {text : String} {edits : List Edit} {m : Merged Edit} (h : apply text edits = .ok m) :
    m.applied = winners text.length false (ranked edits) := by
  obtain ⟨m', hm', happlied, -⟩ := apply_of_fits ((apply_ok_iff text edits).1 ⟨m, h⟩)
  obtain rfl := Except.ok.inj (hm'.symm.trans h)
  obtain ⟨rows, hpriority, hranked, hrows⟩ := exists_rows edits
  rw [happlied, select, hpriority, ← hranked]
  exact pick_sweep rows _ _ hrows

/-! ## Other orders -/

/-- The same edits in another order, in which those of each start come as they did. -/
structure Reordered (edits edits' : List Edit) : Prop where
  perm : edits'.Perm edits
  level : ∀ start, edits'.filter (·.span.start = start) = edits.filter (·.span.start = start)

/-- Only the starts of edits have to be looked at. -/
theorem reordered_iff (edits edits' : List Edit) : Reordered edits edits' ↔ edits'.Perm edits ∧
    ∀ e ∈ edits, edits'.filter (·.span.start = e.span.start) = edits.filter (·.span.start = e.span.start) := by
  constructor
  · intro h
    exact ⟨h.perm, fun e _ => h.level e.span.start⟩
  · rintro ⟨hperm, hlevel⟩
    refine ⟨hperm, fun start => ?_⟩
    by_cases hstart : ∃ e ∈ edits, e.span.start = start
    · obtain ⟨e, he, rfl⟩ := hstart
      exact hlevel e he
    · have hnone : ∀ e ∈ edits, ¬ decide (e.span.start = start) = true :=
        fun e he h => hstart ⟨e, he, of_decide_eq_true h⟩
      rw [List.filter_eq_nil_iff.2 hnone, List.filter_eq_nil_iff.2 fun e he => hnone e (hperm.mem_iff.1 he)]

instance (edits edits' : List Edit) : Decidable (Reordered edits edits') :=
  decidable_of_iff _ (reordered_iff edits edits').symm

/-- Edits of different starts can come in any order. -/
theorem reordered_of_distinct {edits edits' : List Edit} (hperm : edits'.Perm edits)
    (hdistinct : edits.Pairwise fun a b => a.span.start ≠ b.span.start) : Reordered edits edits' := by
  refine ⟨hperm, fun start => ?_⟩
  have hdistinct' : edits'.Pairwise fun a b => a.span.start ≠ b.span.start :=
    hperm.symm.pairwise hdistinct Ne.symm
  refine List.Perm.eq_of_pairwise (fun a b ha hb hne _ => ?_) (hdistinct'.filter _) (hdistinct.filter _) (hperm.filter _)
  have hstart := of_decide_eq_true (List.mem_filter.1 ha).2
  have hstart' := of_decide_eq_true (List.mem_filter.1 hb).2
  exact absurd (hstart.trans hstart'.symm) hne

theorem Reordered.ranked_eq {edits edits' : List Edit} (h : Reordered edits edits') : ranked edits' = ranked edits := by
  refine eq_of_sorted (pairwise_sorted (·.span.start) edits') (pairwise_sorted (·.span.start) edits) fun start => ?_
  rw [filter_ranked, filter_ranked]
  exact h.level start

section Merged

variable {text : String} {edits edits' : List Edit} {m m' : Merged Edit}

/-- The applied edits decide the merged text. -/
theorem text_eq_of_applied (h : apply text edits = .ok m) (h' : apply text edits' = .ok m')
    (happlied : m'.applied = m.applied) : m'.text = m.text := by
  refine String.toList_inj.1 ?_
  rw [(mergeBy_text h').1, (mergeBy_text h).1, happlied]

/-- A merge of the same edits in another order. -/
theorem Reordered.apply_eq (horder : Reordered edits edits') (h : apply text edits = .ok m) :
    ∃ m', apply text edits' = .ok m' ∧ m'.text = m.text ∧ m'.applied = m.applied ∧ m'.skipped.Perm m.skipped := by
  have hfits := (apply_ok_iff text edits).1 ⟨m, h⟩
  obtain ⟨m', h'⟩ := (apply_ok_iff text edits').2 fun e he => hfits e (horder.perm.mem_iff.1 he)
  have happlied : m'.applied = m.applied := by
    rw [applied_eq_winners h, applied_eq_winners h', horder.ranked_eq]
  refine ⟨m', h', text_eq_of_applied h h' happlied, happlied, ?_⟩
  have hall : (m'.applied ++ m'.skipped).Perm (m.applied ++ m.skipped) :=
    (mergeBy_perm h').trans (horder.perm.trans (mergeBy_perm h).symm)
  rw [happlied] at hall
  exact (List.perm_append_left_iff _).1 hall

/-! ## Applied edits alone -/

/-- Do two edits lie one below the other, with different starts? -/
def Apart (a b : Edit) : Prop :=
  b.span.stop ≤ a.span.start ∧ b.span.start < a.span.start ∨ a.span.stop ≤ b.span.start ∧ a.span.start < b.span.start

theorem Apart.symm {a b : Edit} (h : Apart a b) : Apart b a :=
  Or.symm h

theorem Apart.not_blocks {a b : Edit} (h : Apart a b) : ¬ Blocks a.span b.span := by
  rintro ⟨habove, hmeets⟩
  rcases h with ⟨hstop, hstart⟩ | ⟨hstop, hstart⟩ <;> omega

/-- No edit is left out of a merge of edits that lie apart. -/
theorem skipped_eq_nil (hapart : edits.Pairwise Apart) (h : apply text edits = .ok m) : m.skipped = [] := by
  have hall : (m.applied ++ m.skipped).Pairwise Apart := (mergeBy_perm h).symm.pairwise hapart Apart.symm
  refine List.eq_nil_iff_forall_not_mem.2 fun a ha => ?_
  obtain ⟨b, hb, hblocks⟩ := mergeBy_blocked h a ha
  exact ((List.pairwise_append.1 hall).2.2 b hb a ha).not_blocks hblocks

/-- The applied edits of a merge, merged again in any order. -/
theorem apply_applied (h : apply text edits = .ok m) (hperm : edits'.Perm m.applied) :
    apply text edits' = .ok ⟨m.text, m.applied, []⟩ := by
  have hfits := (apply_ok_iff text edits).1 ⟨m, h⟩
  have hsub : ∀ e ∈ edits', e ∈ edits := fun e he =>
    (mergeBy_perm h).subset (List.mem_append_left _ (hperm.mem_iff.1 he))
  obtain ⟨m', h'⟩ := (apply_ok_iff text edits').2 fun e he => hfits e (hsub e he)
  have hapart : m.applied.Pairwise Apart := (pairwise_applied h).imp Or.inl
  have hskipped : m'.skipped = [] := skipped_eq_nil (hperm.symm.pairwise hapart Apart.symm) h'
  have hall := mergeBy_perm h'
  rw [hskipped, List.append_nil] at hall
  -- both lists of applied edits come from the last to the first
  have happlied : m'.applied = m.applied :=
    List.Perm.eq_of_pairwise (fun a b _ _ hab hba => absurd (Int.lt_trans hab.2 hba.2) (Int.lt_irrefl _))
      (pairwise_applied h') (pairwise_applied h) (hall.trans hperm)
  rw [h', ← text_eq_of_applied h h' happlied, ← happlied, ← hskipped]

end Merged

/-! ## Merges -/

/-- A merge does not depend on the order in which its edits are given, as long as those of one start keep
theirs: the merged text and the applied edits are the same, and the same edits are left out. Edits of
different starts, overlapping or not, can be given in any order. -/
theorem merge_order_irrelevant (text : String) (edits : List Edit) (hfits : ∀ e ∈ edits, e.span.fits text.length = true) :
    ∃ m, apply text edits = .ok m ∧
      (∀ edits', Reordered edits edits' → ∃ m', apply text edits' = .ok m' ∧ m'.text = m.text ∧
        m'.applied = m.applied ∧ m'.skipped.Perm m.skipped) ∧
      (edits.Pairwise (fun a b => a.span.start ≠ b.span.start) → ∀ edits', edits'.Perm edits →
        ∃ m', apply text edits' = .ok m' ∧ m'.text = m.text ∧ m'.applied = m.applied ∧
          m'.skipped.Perm m.skipped) := by
  obtain ⟨m, hm⟩ := (apply_ok_iff text edits).2 hfits
  refine ⟨m, hm, fun edits' horder => horder.apply_eq hm, fun hdistinct edits' hperm => ?_⟩
  exact (reordered_of_distinct hperm hdistinct).apply_eq hm

theorem apply_crowded : apply "abcdef" crowded = .ok ⟨"ybzdwefend",
    [.insert 6 "end", .insert 4 "w", .replace 2 1 "z", .replace 0 1 "y"], [.replace 0 4 "x"]⟩ := by
  cbv

/-- The two edits of the first character keep their order, and all others change places. -/
theorem crowded_order_irrelevant : (∀ e ∈ crowded, e.span.fits "abcdef".length = true) ∧
    ∃ m, apply "abcdef" crowded = .ok m ∧ m.text = "ybzdwefend" ∧
      ∃ m', apply "abcdef" [.insert 6 "end", .replace 0 4 "x", .insert 4 "w", .replace 0 1 "y", .replace 2 1 "z"] =
          .ok m' ∧ m'.text = m.text ∧ m'.applied = m.applied ∧ m'.skipped.Perm m.skipped := by
  have hfits : ∀ e ∈ crowded, e.span.fits "abcdef".length = true := by decide
  obtain ⟨m, hm, horder, -⟩ := merge_order_irrelevant "abcdef" crowded hfits
  obtain rfl := Except.ok.inj (apply_crowded.symm.trans hm)
  exact ⟨hfits, _, hm, rfl, horder _ (by decide)⟩

/-- The edits that are left out of a merge leave no trace: the applied ones alone, given in any order, are
all applied again in the order in which they were, and give the same text. -/
theorem losers_leave_no_trace (text : String) (edits : List Edit) (hfits : ∀ e ∈ edits, e.span.fits text.length = true) :
    ∃ m, apply text edits = .ok m ∧
      ∀ edits', edits'.Perm m.applied → apply text edits' = .ok ⟨m.text, m.applied, []⟩ := by
  obtain ⟨m, hm⟩ := (apply_ok_iff text edits).2 hfits
  exact ⟨m, hm, fun edits' hperm => apply_applied hm hperm⟩

/-- Without the edit that was left out, and with the others from the first to the last. -/
theorem crowded_losers_leave_no_trace : (∀ e ∈ crowded, e.span.fits "abcdef".length = true) ∧
    ∃ m, apply "abcdef" crowded = .ok m ∧ m.skipped = [.replace 0 4 "x"] ∧
      apply "abcdef" [.replace 0 1 "y", .replace 2 1 "z", .insert 4 "w", .insert 6 "end"] =
        .ok ⟨m.text, m.applied, []⟩ := by
  have hfits : ∀ e ∈ crowded, e.span.fits "abcdef".length = true := by decide
  obtain ⟨m, hm, hagain⟩ := losers_leave_no_trace "abcdef" crowded hfits
  obtain rfl := Except.ok.inj (apply_crowded.symm.trans hm)
  exact ⟨hfits, _, hm, rfl, hagain _ (by decide)⟩

end Amend.Merge
