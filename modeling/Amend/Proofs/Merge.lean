/-
What a merge takes and what it leaves out: it goes through exactly if every edit fits the text, and
then each item is applied or skipped, none is lost and none is made twice. An item is skipped because
of one that is applied. The findings that lost all their edits follow from that.
-/
import Amend.PatchSet
import Mathlib.Data.List.Induction
import Mathlib.Data.List.Perm.Basic
import Mathlib.Data.List.Nodup

namespace Amend

namespace Merge

/-! ## Numbers of items -/

theorem map_fst_numbered {α : Type} (items : List α) :
    ∀ i, (numbered i items).map (·.1) = List.range' i items.length := by
  induction items with
  | nil => intro i; rfl
  | cons a rest ih =>
    intro i
    simp only [numbered, List.map_cons, List.length_cons, ih, List.range'_succ]

theorem map_snd_numbered {α : Type} (items : List α) : ∀ i, (numbered i items).map (·.2) = items := by
  induction items with
  | nil => intro i; rfl
  | cons a rest ih =>
    intro i
    simp only [numbered, List.map_cons, ih]

theorem mem_numbered {α : Type} {items : List α} {a : α} : ∀ {from' i : Nat},
    (i, a) ∈ numbered from' items ↔ from' ≤ i ∧ items[i - from']? = some a := by
  induction items with
  | nil => intro from' i; simp [numbered]
  | cons b rest ih =>
    intro from' i
    rw [numbered, List.mem_cons, ih, Prod.mk.injEq]
    by_cases hi : i = from'
    · subst hi
      constructor
      · rintro (⟨-, rfl⟩ | ⟨h, -⟩)
        · simp
        · omega
      · rintro ⟨-, h⟩
        simp only [Nat.sub_self, List.getElem?_cons_zero, Option.some.injEq] at h
        exact .inl ⟨rfl, h.symm⟩
    · by_cases hle : from' ≤ i
      · obtain ⟨k, rfl⟩ : ∃ k, i = from' + (k + 1) := ⟨i - from' - 1, by omega⟩
        have hsub : from' + (k + 1) - (from' + 1) = k := by omega
        have hsub' : from' + (k + 1) - from' = k + 1 := by omega
        rw [hsub, hsub', List.getElem?_cons_succ]
        constructor
        · rintro (⟨h, -⟩ | ⟨-, h⟩)
          · omega
          · exact ⟨by omega, h⟩
        · exact fun h => .inr ⟨by omega, h.2⟩
      · constructor
        · rintro (⟨h, -⟩ | ⟨h, -⟩) <;> omega
        · exact fun h => absurd h.1 hle

theorem mem_pick {α : Type} {items : List α} {indices : List Nat} {a : α} :
    a ∈ pick items indices ↔ ∃ i ∈ indices, items[i]? = some a :=
  List.mem_filterMap

theorem pick_range {α : Type} (items : List α) : pick items (List.range items.length) = items := by
  unfold pick
  induction items using List.reverseRecOn with
  | nil => rfl
  | append_singleton items a ih =>
    rw [List.length_append, List.length_singleton, List.range_succ, List.filterMap_append]
    congr 1
    · conv_rhs => rw [← ih]
      refine List.filterMap_congr fun i hi => ?_
      rw [List.getElem?_append_left (List.mem_range.1 hi)]
    · simp

/-! ## Items sorted by a key, highest first -/

section Sorted

variable {α : Type} (key : α → Int)

theorem higher_trans (a b c : α) (hab : decide (key b ≤ key a) = true) (hbc : decide (key c ≤ key b) = true) :
    decide (key c ≤ key a) = true := by
  simp only [decide_eq_true_eq] at hab hbc ⊢
  omega

theorem higher_total (a b : α) : (decide (key b ≤ key a) || decide (key a ≤ key b)) = true := by
  simp only [Bool.or_eq_true, decide_eq_true_eq]
  omega

theorem pairwise_sorted (items : List α) :
    (items.mergeSort fun a b => key b ≤ key a).Pairwise fun a b => key b ≤ key a :=
  (List.pairwise_mergeSort (higher_trans key) (higher_total key) items).imp of_decide_eq_true

/-- Items of one key keep the order they were given in. -/
theorem filter_sorted (items : List α) (k : Int) :
    (items.mergeSort fun a b => key b ≤ key a).filter (key · = k) = items.filter (key · = k) := by
  have hlevel : (items.filter (key · = k)).Pairwise fun a b => decide (key b ≤ key a) = true := by
    refine List.Pairwise.imp_of_mem (R := fun _ _ => True) (fun {a b} ha hb _ => ?_) (List.pairwise_of_forall fun _ _ => trivial)
    have hkey := (List.mem_filter.1 ha).2
    have hkey' := (List.mem_filter.1 hb).2
    simp only [decide_eq_true_eq] at hkey hkey' ⊢
    omega
  have hsub : (items.filter (key · = k)).Sublist (items.mergeSort fun a b => key b ≤ key a) :=
    List.sublist_mergeSort (higher_trans key) (higher_total key) hlevel List.filter_sublist
  have hsub' := hsub.filter (fun a => decide (key a = k))
  rw [List.filter_filter] at hsub'
  simp only [Bool.and_self] at hsub'
  exact (hsub'.eq_of_length ((List.mergeSort_perm _ _).filter _).length_eq.symm).symm

end Sorted

/-! ## The partition -/

/-- The sweep puts each number on one of its two lists. -/
theorem sweep_perm (rows : List (Nat × Span)) : ∀ boundary taken,
    ((sweep boundary taken rows).accepted ++ (sweep boundary taken rows).skipped).Perm (rows.map (·.1)) := by
  induction rows with
  | nil => intro _ _; exact List.Perm.refl _
  | cons row rest ih =>
    intro boundary taken
    obtain ⟨i, span⟩ := row
    unfold sweep
    split
    · exact List.perm_middle.trans ((ih boundary taken).cons i)
    · exact (ih span.start true).cons i

theorem select_perm (spans : List Span) (size : Nat) :
    ((select spans size).accepted ++ (select spans size).skipped).Perm (List.range spans.length) := by
  have hsort : (byPriority spans).Perm (numbered 0 spans) := List.mergeSort_perm _ _
  have hnum : (numbered 0 spans).map (·.1) = List.range spans.length := by
    rw [map_fst_numbered, List.range_eq_range']
  exact (sweep_perm _ _ _).trans (hnum ▸ hsort.map _)

/-- A merge loses no item and makes none twice. -/
theorem mergeBy_perm {α : Type} {editOf : α → Edit} {text : String} {items : List α} {m : Merged α}
    (h : mergeBy editOf text items = .ok m) : (m.applied ++ m.skipped).Perm items := by
  simp only [mergeBy] at h
  split at h
  · cases h
  · cases h
    -- the two lists of numbers are all numbers, so picking by them gives all items
    have hsel := select_perm ((items.map editOf).map (·.span)) text.length
    rw [List.length_map, List.length_map] at hsel
    have hasc : (ascending (select ((items.map editOf).map (·.span)) text.length).skipped).Perm _ :=
      List.mergeSort_perm _ _
    have hpick := ((hasc.append_left _).trans hsel).filterMap (items[·]?)
    rw [List.filterMap_append] at hpick
    exact hpick.trans (List.Perm.of_eq (pick_range items))

/-! ## When a merge goes through -/

theorem misfit?_eq_none_iff (size : Nat) (edits : List Edit) :
    misfit? size edits = none ↔ ∀ e ∈ edits, e.span.fits size = true := by
  unfold misfit?
  rw [List.findSome?_eq_none_iff]
  constructor
  · intro h e he
    rw [← map_snd_numbered edits 0] at he
    obtain ⟨row, hrow, rfl⟩ := List.mem_map.1 he
    have := h row hrow
    simpa using this
  · intro h row hrow
    have he : row.2 ∈ edits := by
      rw [← map_snd_numbered edits 0]
      exact List.mem_map.2 ⟨row, hrow, rfl⟩
    simp [h _ he]

theorem mergeBy_ok_iff {α : Type} (editOf : α → Edit) (text : String) (items : List α) :
    (∃ m, mergeBy editOf text items = .ok m) ↔ ∀ a ∈ items, (editOf a).span.fits text.length = true := by
  have hfit := misfit?_eq_none_iff text.length (items.map editOf)
  rw [List.forall_mem_map] at hfit
  rw [← hfit]
  simp only [mergeBy]
  constructor
  · rintro ⟨m, h⟩
    split at h
    · cases h
    · assumption
  · intro h
    simp [h]

/-! ## Why an item is left out -/

/-- Is a span that was taken in the way of another one? It starts no earlier, and the other reaches
into it or starts where it does. -/
structure Blocks (taken span : Span) : Prop where
  above : span.start ≤ taken.start
  meets : taken.start < span.stop ∨ span.start = taken.start

theorem pairwise_byPriority (spans : List Span) : (byPriority spans).Pairwise fun a b => b.2.start ≤ a.2.start :=
  pairwise_sorted (fun row : Nat × Span => row.2.start) _

/-- A span that the sweep leaves out is blocked by one that the sweep takes, or by the one that was
taken last before. -/
theorem sweep_blocked (rows : List (Nat × Span)) : ∀ (boundary : Int) (taken : Bool),
    rows.Pairwise (fun a b => b.2.start ≤ a.2.start) → (taken = false → ∀ row ∈ rows, row.2.stop ≤ boundary) →
    ∀ i ∈ (sweep boundary taken rows).skipped, ∃ span, (i, span) ∈ rows ∧
      (taken = true ∧ (boundary < span.stop ∨ span.start = boundary) ∨
        ∃ row ∈ rows, row.1 ∈ (sweep boundary taken rows).accepted ∧ Blocks row.2 span) := by
  -- for all boundaries at once, since each span that is taken moves it
  induction rows with
  | nil => intro _ _ _ _ i hi; cases hi
  | cons row rest ih =>
    obtain ⟨n, s⟩ := row
    intro boundary taken hsorted hfits i hi
    obtain ⟨hhead, hrest⟩ := List.pairwise_cons.1 hsorted
    by_cases hskip : (s.stop > boundary || (taken && s.start == boundary)) = true
    · have hsweep : sweep boundary taken ((n, s) :: rest) =
          { sweep boundary taken rest with skipped := n :: (sweep boundary taken rest).skipped } := by
        rw [sweep, if_pos hskip]
      rw [hsweep] at hi ⊢
      rcases List.mem_cons.1 hi with rfl | hi
      · refine ⟨s, List.mem_cons_self .., .inl ?_⟩
        cases taken with
        | false =>
          have hstop : s.stop ≤ boundary := hfits rfl (i, s) (List.mem_cons_self ..)
          simp only [Bool.false_and, Bool.or_false, decide_eq_true_eq] at hskip
          omega
        | true => simpa using hskip
      · obtain ⟨span, hmem, hblocked⟩ := ih boundary taken hrest
          (fun ht row hrow => hfits ht row (List.mem_cons_of_mem _ hrow)) i hi
        refine ⟨span, List.mem_cons_of_mem _ hmem, hblocked.imp_right ?_⟩
        rintro ⟨row, hrow, haccepted, hblocks⟩
        exact ⟨row, List.mem_cons_of_mem _ hrow, haccepted, hblocks⟩
    · have hsweep : sweep boundary taken ((n, s) :: rest) =
          { sweep s.start true rest with accepted := n :: (sweep s.start true rest).accepted } := by
        rw [sweep, if_neg hskip]
      rw [hsweep] at hi ⊢
      obtain ⟨span, hmem, hblocked⟩ := ih s.start true hrest (fun ht => by cases ht) i hi
      refine ⟨span, List.mem_cons_of_mem _ hmem, .inr ?_⟩
      rcases hblocked with ⟨-, hmeets⟩ | ⟨row, hrow, haccepted, hblocks⟩
      · exact ⟨(n, s), List.mem_cons_self .., List.mem_cons_self .., hhead _ hmem, hmeets⟩
      · exact ⟨row, List.mem_cons_of_mem _ hrow, List.mem_cons_of_mem _ haccepted, hblocks⟩

theorem select_blocked {spans : List Span} {size : Nat} (hfits : ∀ span ∈ spans, span.fits size = true) {i : Nat}
    (hi : i ∈ (select spans size).skipped) : ∃ span, spans[i]? = some span ∧
      ∃ j ∈ (select spans size).accepted, ∃ taken, spans[j]? = some taken ∧ Blocks taken span := by
  have hperm : (byPriority spans).Perm (numbered 0 spans) := List.mergeSort_perm _ _
  have hrow : ∀ n span, (n, span) ∈ byPriority spans → spans[n]? = some span := by
    intro n span h
    exact (mem_numbered.1 (hperm.mem_iff.1 h)).2
  obtain ⟨span, hmem, hblocked⟩ := sweep_blocked (byPriority spans) size false (pairwise_byPriority spans)
    (fun _ row h => by
      have hfit := hfits row.2 (List.mem_of_getElem? (hrow row.1 row.2 h))
      simp only [Span.fits, Bool.and_eq_true, decide_eq_true_eq] at hfit
      exact hfit.2) i hi
  rcases hblocked with ⟨h, -⟩ | ⟨row, hmem', haccepted, hblocks⟩
  · cases h
  · exact ⟨span, hrow i span hmem, row.1, haccepted, row.2, hrow row.1 row.2 hmem', hblocks⟩

/-- An item is left out of a merge because of one that is in it. -/
theorem mergeBy_blocked {α : Type} {editOf : α → Edit} {text : String} {items : List α} {m : Merged α}
    (h : mergeBy editOf text items = .ok m) : ∀ a ∈ m.skipped, ∃ b ∈ m.applied,
      Blocks (editOf b).span (editOf a).span := by
  have hfit := (mergeBy_ok_iff editOf text items).1 ⟨m, h⟩
  simp only [mergeBy] at h
  split at h
  · cases h
  · cases h
    intro a ha
    obtain ⟨i, hi, hitem⟩ := mem_pick.1 ha
    have hskipped : i ∈ (select ((items.map editOf).map (·.span)) text.length).skipped :=
      (List.mergeSort_perm _ _).mem_iff.1 hi
    obtain ⟨span, hspan, j, hj, taken, htaken, hblocks⟩ := select_blocked (by simpa using hfit) hskipped
    have hown : ∀ {n : Nat} {s : Span}, ((items.map editOf).map (·.span))[n]? = some s →
        ∃ b, items[n]? = some b ∧ (editOf b).span = s := by
      intro n s hs
      simpa using hs
    obtain ⟨a', ha', rfl⟩ := hown hspan
    obtain ⟨b, hb, rfl⟩ := hown htaken
    cases hitem.symm.trans ha'
    exact ⟨b, mem_pick.2 ⟨j, hj, hb⟩, hblocks⟩

end Merge

/-! ## Patch sets -/

namespace PatchSet

/-- A patch set can be merged exactly if each of its edits fits the document. -/
theorem apply_ok_iff (set : PatchSet) (document : Document) :
    (∃ r, set.apply document = .ok r) ↔ ∀ patch ∈ set.patches, patch.edit.span.fits document.size = true := by
  rw [show document.size = document.text.length from rfl, ← Merge.mergeBy_ok_iff]
  unfold apply
  cases Merge.mergeBy (·.edit) document.text set.patches with
  | error e => simp [Except.map]
  | ok m => simp [Except.map]

theorem apply_ok {set : PatchSet} {document : Document} {r : PatchResult} (h : set.apply document = .ok r) :
    r.before = document.text ∧ (r.applied ++ r.skipped).Perm set.patches := by
  unfold apply at h
  rcases hm : Merge.mergeBy (·.edit) document.text set.patches with e | m
  · rw [hm] at h; cases h
  · rw [hm] at h; cases h
    exact ⟨rfl, Merge.mergeBy_perm hm⟩

/-- A patch is left out because of one that is in the merged text. -/
theorem apply_blocked {set : PatchSet} {document : Document} {r : PatchResult} (h : set.apply document = .ok r) :
    ∀ patch ∈ r.skipped, ∃ taken ∈ r.applied, Merge.Blocks taken.edit.span patch.edit.span := by
  unfold apply at h
  rcases hm : Merge.mergeBy (·.edit) document.text set.patches with e | m
  · rw [hm] at h; cases h
  · rw [hm] at h; cases h
    exact Merge.mergeBy_blocked hm

theorem apply_nil (path : String) (document : Document) :
    ∃ r, (⟨path, []⟩ : PatchSet).apply document = .ok r ∧ r.applied = [] ∧ r.skipped = [] := by
  obtain ⟨r, hr⟩ := (apply_ok_iff ⟨path, []⟩ document).2 (by simp)
  have hp := List.perm_nil.1 (apply_ok hr).2
  exact ⟨r, hr, List.append_eq_nil_iff.1 hp⟩

end PatchSet

/-! ## Findings that lose out -/

theorem mem_firstOccurrences {α : Type} [DecidableEq α] (a : α) (items : List α) :
    a ∈ firstOccurrences items ↔ a ∈ items := by
  induction items with
  | nil => rfl
  | cons b rest ih =>
    simp only [firstOccurrences, List.mem_cons, List.mem_filter, ih, decide_eq_true_eq]
    tauto

theorem nodup_firstOccurrences {α : Type} [DecidableEq α] (items : List α) : (firstOccurrences items).Nodup := by
  induction items with
  | nil => exact List.nodup_nil
  | cons b rest ih =>
    refine List.nodup_cons.2 ⟨fun h => ?_, ih.filter _⟩
    simpa using (List.mem_filter.1 h).2

theorem firstOccurrences_concat {α : Type} [DecidableEq α] (items : List α) (a : α) :
    firstOccurrences (items ++ [a]) =
      if a ∈ items then firstOccurrences items else firstOccurrences items ++ [a] := by
  induction items with
  | nil => simp [firstOccurrences]
  | cons b rest ih =>
    simp only [List.cons_append, firstOccurrences, ih]
    by_cases hr : a ∈ rest
    · simp [hr]
    · by_cases hb : a = b
      · subst hb; simp [hr]
      · simp [hr, hb]

theorem firstOccurrences_filter {α : Type} [DecidableEq α] (test : α → Bool) (items : List α) :
    firstOccurrences (items.filter test) = (firstOccurrences items).filter test := by
  induction items using List.reverseRecOn with
  | nil => rfl
  | append_singleton items a ih =>
    rw [List.filter_append, firstOccurrences_concat]
    by_cases ha : test a = true
    · rw [List.filter_cons_of_pos ha, List.filter_nil, firstOccurrences_concat, ih]
      by_cases hm : a ∈ items
      · rw [if_pos hm, if_pos (List.mem_filter.2 ⟨hm, ha⟩)]
      · rw [if_neg hm, if_neg fun h => hm (List.mem_filter.1 h).1, List.filter_append,
          List.filter_cons_of_pos ha, List.filter_nil]
    · rw [List.filter_cons_of_neg ha, List.filter_nil, List.append_nil, ih]
      split
      · rfl
      · rw [List.filter_append, List.filter_cons_of_neg ha, List.filter_nil, List.append_nil]

/-- Values come in the order of the first items that have them. -/
theorem pairwise_firstOccurrences {α β : Type} [DecidableEq α] (valueOf : β → Option α) (items : List β) :
    (firstOccurrences (items.filterMap valueOf)).Pairwise fun a b =>
      items.findIdx (valueOf · = some a) < items.findIdx (valueOf · = some b) := by
  induction items with
  | nil => exact List.Pairwise.nil
  | cons item rest ih =>
    rcases hvalue : valueOf item with _ | first
    · rw [List.filterMap_cons_none hvalue]
      refine ih.imp fun {a b} hab => ?_
      simpa [List.findIdx_cons, hvalue] using hab
    · rw [List.filterMap_cons_some hvalue, firstOccurrences]
      -- the first value is found at once, and all others after one step more
      have hlater : ∀ b ≠ first, (item :: rest).findIdx (valueOf · = some b) = rest.findIdx (valueOf · = some b) + 1 := by
        intro b hb
        simp [List.findIdx_cons, hvalue, Ne.symm hb]
      refine List.pairwise_cons.2 ⟨fun b hb => ?_, (ih.filter _).imp_of_mem fun {a b} ha hb hab => ?_⟩
      · rw [hlater b (of_decide_eq_true (List.mem_filter.1 hb).2)]
        simp [List.findIdx_cons, hvalue]
      · rw [hlater a (of_decide_eq_true (List.mem_filter.1 ha).2), hlater b (of_decide_eq_true (List.mem_filter.1 hb).2)]
        exact Nat.succ_lt_succ hab

namespace PatchResult

theorem nodup_droppedDiagnostics (r : PatchResult) : r.droppedDiagnostics.Nodup :=
  (nodup_firstOccurrences _).filter _

/-- A finding is dropped if it lost an edit and none of its edits was made. -/
theorem mem_droppedDiagnostics_iff (r : PatchResult) (d : Diagnostic) :
    d ∈ r.droppedDiagnostics ↔ d ∈ r.skipped.map (·.diagnostic) ∧ d ∉ r.applied.map (·.diagnostic) := by
  unfold droppedDiagnostics skippedDiagnostics
  rw [List.mem_filter, mem_firstOccurrences]
  simp

end PatchResult

end Amend
