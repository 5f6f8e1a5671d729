/-
Which edits a merge takes. Edits are ranked: a higher start comes first, and of equal starts the one
given first. An edit is taken exactly if it is clear of all edits taken before it in this order; so one
boundary stands for all of them, taken edits are apart from each other, and no edit could be added.
-/
import Amend.Proofs.Merge
import Mathlib

namespace Amend.Merge

/-! ## The ranking -/

/-- Does a row come before another one? It starts higher, or as high with a smaller number. -/
def Outranks (a b : Nat × Span) : Prop :=
  b.2.start < a.2.start ∨ a.2.start = b.2.start ∧ a.1 < b.1

theorem pairwise_numbered {α : Type} (from' : Nat) (items : List α) :
    (numbered from' items).Pairwise fun a b => a.1 < b.1 := by
  rw [← List.pairwise_map (f := Prod.fst) (R := (· < ·)), map_fst_numbered]
  exact List.pairwise_lt_range'

theorem perm_byPriority (spans : List Span) : (byPriority spans).Perm (numbered 0 spans) :=
  List.mergeSort_perm _ _

/-- A row by priority is a span with its number. -/
theorem mem_byPriority {spans : List Span} {i : Nat} {span : Span} :
    (i, span) ∈ byPriority spans ↔ spans[i]? = some span := by
  rw [(perm_byPriority spans).mem_iff, mem_numbered]
  simp

theorem nodup_byPriority (spans : List Span) : ((byPriority spans).map (·.1)).Nodup := by
  rw [((perm_byPriority spans).map _).nodup_iff, map_fst_numbered]
  exact List.nodup_range'

/-- Rows of one start keep the order they were given in. -/
theorem filter_byPriority (spans : List Span) (start : Int) :
    (byPriority spans).filter (·.2.start = start) = (numbered 0 spans).filter (·.2.start = start) :=
  filter_sorted (fun row : Nat × Span => row.2.start) _ start

theorem pairwise_outranks (spans : List Span) : (byPriority spans).Pairwise Outranks := by
  refine List.pairwise_iff_forall_sublist.2 fun {a b} hab => ?_
  have hle : b.2.start ≤ a.2.start := List.pairwise_iff_forall_sublist.1 (pairwise_byPriority spans) hab
  rcases Int.lt_or_eq_of_le hle with hlt | heq
  · exact .inl hlt
  · -- both rows are among those of their start, which come in the order of their numbers
    refine .inr ⟨heq.symm, ?_⟩
    have hsame := hab.filter (fun row => decide (row.2.start = a.2.start))
    rw [filter_byPriority] at hsame
    simp only [List.filter_cons, heq, decide_true, if_true, List.filter_nil] at hsame
    exact List.pairwise_iff_forall_sublist.1 (pairwise_numbered 0 spans) (hsame.trans List.filter_sublist)

/-! ## One pass -/

/-- Does a span stay out of the way of a taken one that does not start below it? -/
structure Clear (taken span : Span) : Prop where
  below : span.stop ≤ taken.start
  apart : span.start ≠ taken.start

/-- Does a span end at or below the boundary, without starting where the last one was taken? -/
structure Admitted (boundary : Int) (taken : Bool) (span : Span) : Prop where
  below : span.stop ≤ boundary
  apart : taken = true → span.start ≠ boundary

theorem not_admitted_iff (boundary : Int) (taken : Bool) (span : Span) :
    ¬ Admitted boundary taken span ↔ (span.stop > boundary || (taken && span.start == boundary)) = true := by
  simp only [Bool.or_eq_true, decide_eq_true_eq, Bool.and_eq_true, beq_iff_eq]
  constructor
  · intro h
    by_contra hno
    rw [not_or, not_and] at hno
    exact h ⟨by omega, hno.2⟩
  · rintro (hstop | ⟨ht, hstart⟩) h
    · have := h.below
      omega
    · exact h.apart ht hstart

section Sweep

variable {boundary : Int} {taken : Bool} {n : Nat} {span : Span} (rest : List (Nat × Span))

theorem accepted_of_admitted (h : Admitted boundary taken span) :
    (sweep boundary taken ((n, span) :: rest)).accepted = n :: (sweep span.start true rest).accepted := by
  rw [sweep, if_neg fun hskip => (not_admitted_iff ..).2 hskip h]

theorem accepted_of_not_admitted (h : ¬ Admitted boundary taken span) :
    (sweep boundary taken ((n, span) :: rest)).accepted = (sweep boundary taken rest).accepted := by
  rw [sweep, if_pos ((not_admitted_iff ..).1 h)]

end Sweep

theorem sublist_accepted (rows : List (Nat × Span)) : ∀ boundary taken,
    (sweep boundary taken rows).accepted.Sublist (rows.map (·.1)) := by
  induction rows with
  | nil => intro _ _; exact List.Sublist.refl _
  | cons row rest ih =>
    intro boundary taken
    by_cases h : Admitted boundary taken row.2
    · rw [accepted_of_admitted rest h]
      exact (ih row.2.start true).cons_cons _
    · rw [accepted_of_not_admitted rest h]
      exact (ih boundary taken).cons _

/-- What is admitted below a taken span was admitted before that span was taken. -/
theorem Admitted.of_below {boundary : Int} {taken : Bool} {first span : Span} (hfirst : Admitted boundary taken first)
    (hlength : 0 ≤ first.length) (hspan : 0 ≤ span.length) (h : Admitted first.start true span) :
    Admitted boundary taken span := by
  have hbelow := hfirst.below
  have hbelow' := h.below
  have hapart := h.apart rfl
  unfold Span.stop at hbelow hbelow'
  refine ⟨?_, fun _ => ?_⟩
  · unfold Span.stop
    omega
  · omega

/-- Nothing comes before the first of ranked rows. -/
theorem not_outranks_first {first : Nat × Span} {rest : List (Nat × Span)} (h : ∀ row ∈ rest, Outranks first row) :
    ∀ other ∈ first :: rest, ¬ Outranks other first := by
  intro other hmem hrank
  rcases List.mem_cons.1 hmem with rfl | hmem
  · unfold Outranks at hrank
    omega
  · have hless := h other hmem
    unfold Outranks at hrank hless
    omega

/-- The sweep takes a row exactly if it is admitted, and clear of all rows that are taken before it. -/
theorem sweep_takes_iff (rows : List (Nat × Span)) : ∀ (boundary : Int) (taken : Bool),
    rows.Pairwise Outranks → (rows.map (·.1)).Nodup → (∀ row ∈ rows, 0 ≤ row.2.length) →
    ∀ row ∈ rows, row.1 ∈ (sweep boundary taken rows).accepted ↔ Admitted boundary taken row.2 ∧
      ∀ other ∈ rows, other.1 ∈ (sweep boundary taken rows).accepted → Outranks other row → Clear other.2 row.2 := by
  -- for all boundaries at once, since each row that is taken moves it
  induction rows with
  | nil => intro _ _ _ _ _ row hrow; cases hrow
  | cons head rest ih =>
    obtain ⟨n, first⟩ := head
    intro boundary taken hsorted hnodup hlength row hrow
    obtain ⟨hhead, hsorted⟩ := List.pairwise_cons.1 hsorted
    obtain ⟨hnew, hnodup⟩ := List.nodup_cons.1 hnodup
    obtain ⟨hfirst, hlength⟩ := List.forall_mem_cons.1 hlength
    have hother : ∀ row ∈ rest, row.1 ≠ n := by
      rintro row h rfl
      exact hnew (List.mem_map.2 ⟨row, h, rfl⟩)
    by_cases hin : Admitted boundary taken first
    · rw [accepted_of_admitted rest hin]
      rcases List.mem_cons.1 hrow with rfl | hrow
      · exact iff_of_true (List.mem_cons_self ..) ⟨hin, fun other hmem _ hrank =>
          absurd hrank (not_outranks_first hhead other hmem)⟩
      · rw [List.mem_cons, or_iff_right (hother row hrow), ih first.start true hsorted hnodup hlength row hrow]
        constructor
        · rintro ⟨hlow, hall⟩
          refine ⟨hin.of_below hfirst (hlength row hrow) hlow, fun other hmem htaken hrank => ?_⟩
          rcases List.mem_cons.1 hmem with rfl | hmem
          · exact ⟨hlow.below, hlow.apart rfl⟩
          · rw [List.mem_cons, or_iff_right (hother other hmem)] at htaken
            exact hall other hmem htaken hrank
        · rintro ⟨-, hall⟩
          have hclear := hall (n, first) (List.mem_cons_self ..) (List.mem_cons_self ..) (hhead row hrow)
          exact ⟨⟨hclear.below, fun _ => hclear.apart⟩, fun other hmem htaken =>
            hall other (List.mem_cons_of_mem _ hmem) (List.mem_cons_of_mem _ htaken)⟩
    · have hout : n ∉ (sweep boundary taken rest).accepted := fun h =>
        hnew ((sublist_accepted rest boundary taken).subset h)
      rw [accepted_of_not_admitted rest hin]
      rcases List.mem_cons.1 hrow with rfl | hrow
      · exact iff_of_false hout fun h => hin h.1
      · rw [ih boundary taken hsorted hnodup hlength row hrow]
        refine and_congr_right fun _ => ⟨fun h other hmem htaken => ?_, fun h other hmem =>
          h other (List.mem_cons_of_mem _ hmem)⟩
        rcases List.mem_cons.1 hmem with rfl | hmem
        · exact absurd htaken hout
        · exact h other hmem htaken

/-! ## The spans that are taken -/

section Select

variable {spans : List Span} {size : Nat} (hfits : ∀ span ∈ spans, span.fits size = true)
include hfits

/-- A span is taken exactly if it is clear of every taken span that comes before it. -/
theorem select_takes_iff {i : Nat} {span : Span} (hi : spans[i]? = some span) :
    i ∈ (select spans size).accepted ↔ ∀ j ∈ (select spans size).accepted, ∀ taken, spans[j]? = some taken →
      Outranks (j, taken) (i, span) → Clear taken span := by
  have hfit : ∀ row ∈ byPriority spans, 0 ≤ row.2.length ∧ row.2.stop ≤ size := by
    intro row hrow
    have := hfits row.2 (List.mem_of_getElem? (mem_byPriority.1 hrow))
    simp only [Span.fits, Bool.and_eq_true, decide_eq_true_eq] at this
    exact ⟨this.1.2, this.2⟩
  have hrow := mem_byPriority.2 hi
  unfold select
  rw [sweep_takes_iff (byPriority spans) size false (pairwise_outranks spans) (nodup_byPriority spans)
    (fun row h => (hfit row h).1) (i, span) hrow]
  constructor
  · rintro ⟨-, hall⟩ j hj taken htaken
    exact hall (j, taken) (mem_byPriority.2 htaken) hj
  · intro hall
    exact ⟨⟨(hfit _ hrow).2, fun h => absurd h Bool.false_ne_true⟩, fun other hmem hj =>
      hall other.1 hj other.2 (mem_byPriority.1 hmem)⟩

/-- The taken spans come from the last to the first, each one below those before it. -/
theorem pairwise_pick_accepted :
    (pick spans (select spans size).accepted).Pairwise fun a b => b.stop ≤ a.start ∧ b.start < a.start := by
  obtain ⟨rows, hsub, hrows⟩ := List.sublist_map_iff.1 (sublist_accepted (byPriority spans) size false)
  have hrows : (select spans size).accepted = rows.map (·.1) := hrows
  have hspan : ∀ row ∈ rows, spans[row.1]? = some row.2 := fun row h => mem_byPriority.1 (hsub.subset h)
  have hpick : pick spans (select spans size).accepted = rows.map (·.2) := by
    rw [hrows, pick, List.filterMap_map, ← List.filterMap_eq_map]
    exact List.filterMap_congr hspan
  rw [hpick, List.pairwise_map]
  refine ((pairwise_outranks spans).sublist hsub).imp_of_mem fun {a b} ha hb hrank => ?_
  have hin : ∀ row ∈ rows, row.1 ∈ (select spans size).accepted := fun row h => hrows ▸ List.mem_map_of_mem h
  obtain ⟨hbelow, hapart⟩ := (select_takes_iff hfits (hspan b hb)).1 (hin b hb) a.1 (hin a ha) a.2 (hspan a ha) hrank
  unfold Outranks at hrank
  exact ⟨hbelow, by omega⟩

/-- A span is left out only if one that is taken before it stands in its way. -/
theorem select_skips {i : Nat} (hi : i ∈ (select spans size).skipped) : ∃ span, spans[i]? = some span ∧
    ∃ j ∈ (select spans size).accepted, ∃ taken, spans[j]? = some taken ∧ Outranks (j, taken) (i, span) ∧
      (taken.start < span.stop ∨ span.start = taken.start) := by
  have hperm := select_perm spans size
  have hout : i ∉ (select spans size).accepted := fun h =>
    (List.nodup_append.1 (hperm.nodup_iff.2 List.nodup_range)).2.2 i h i hi rfl
  have hlt : i < spans.length := List.mem_range.1 (hperm.subset (List.mem_append_right _ hi))
  refine ⟨spans[i], List.getElem?_eq_getElem hlt, ?_⟩
  rw [select_takes_iff hfits (List.getElem?_eq_getElem hlt)] at hout
  push Not at hout
  obtain ⟨j, hj, taken, htaken, hrank, hclear⟩ := hout
  refine ⟨j, hj, taken, htaken, hrank, ?_⟩
  by_contra hno
  rw [not_or, Int.not_lt] at hno
  exact hclear ⟨hno.1, hno.2⟩

end Select

/-! ## Merges -/

theorem map_pick {α β : Type} (f : α → β) (items : List α) (indices : List Nat) :
    (pick items indices).map f = pick (items.map f) indices := by
  unfold pick
  rw [List.map_filterMap]
  simp only [List.getElem?_map]

/-- The indices in ascending order are those up to a bound that are among them. -/
theorem ascending_eq_filter {indices : List Nat} (hnodup : indices.Nodup) {n : Nat} (hlt : ∀ i ∈ indices, i < n) :
    ascending indices = (List.range n).filter (· ∈ indices) := by
  refine List.Perm.eq_of_pairwise (fun a b _ _ (hab : a ≤ b) (hba : b ≤ a) => Nat.le_antisymm hab hba) ?_ ?_ ?_
  · have h : (ascending indices).Pairwise fun a b => decide (a ≤ b) = true := by
      refine List.pairwise_mergeSort (fun a b c hab hbc => ?_) (fun a b => ?_) _
      · simp only [decide_eq_true_eq] at hab hbc ⊢
        omega
      · simp only [Bool.or_eq_true, decide_eq_true_eq]
        omega
    exact h.imp of_decide_eq_true
  · exact (List.pairwise_lt_range.filter _).imp Nat.le_of_lt
  · refine (List.mergeSort_perm _ _).trans ((List.perm_ext_iff_of_nodup hnodup (List.nodup_range.filter _)).2 fun i => ?_)
    simp only [List.mem_filter, List.mem_range, decide_eq_true_eq]
    exact ⟨fun hi => ⟨hlt i hi, hi⟩, And.right⟩

/-- What a merge gives when all edits fit. -/
theorem mergeBy_of_fits {α : Type} {editOf : α → Edit} {text : String} {items : List α}
    (hfits : ∀ a ∈ items, (editOf a).span.fits text.length = true) :
    mergeBy editOf text items =
      let v := select ((items.map editOf).map (·.span)) text.length
      .ok ⟨String.ofList (splice text.toList text.length (pick (items.map editOf) v.accepted)),
        pick items v.accepted, pick items ((List.range items.length).filter (· ∈ v.skipped))⟩ := by
  have hnone : misfit? text.length (items.map editOf) = none :=
    (misfit?_eq_none_iff ..).2 (List.forall_mem_map.2 hfits)
  have hperm := select_perm ((items.map editOf).map (·.span)) text.length
  rw [List.length_map, List.length_map] at hperm
  have hnodup := (List.nodup_append.1 (hperm.nodup_iff.2 List.nodup_range)).2.1
  have hlt : ∀ i ∈ (select ((items.map editOf).map (·.span)) text.length).skipped, i < items.length :=
    fun i hi => List.mem_range.1 (hperm.subset (List.mem_append_right _ hi))
  simp only [mergeBy, hnone, ascending_eq_filter hnodup hlt]

theorem apply_ok_iff (text : String) (edits : List Edit) :
    (∃ m, apply text edits = .ok m) ↔ ∀ e ∈ edits, e.span.fits text.length = true :=
  mergeBy_ok_iff id text edits

/-- A merge of edits that fit gives the edits of each number in the verdict. -/
theorem apply_of_fits {text : String} {edits : List Edit} (hfits : ∀ e ∈ edits, e.span.fits text.length = true) :
    ∃ m, apply text edits = .ok m ∧
      m.applied = pick edits (select (edits.map (·.span)) text.length).accepted ∧
      m.skipped = pick edits ((List.range edits.length).filter
        (· ∈ (select (edits.map (·.span)) text.length).skipped)) := by
  refine ⟨_, @mergeBy_of_fits Edit id text edits hfits, ?_, ?_⟩ <;> rw [List.map_id]

/-- The applied edits of a merge come from the last to the first, each one below those before it. -/
theorem pairwise_applied {α : Type} {editOf : α → Edit} {text : String} {items : List α} {m : Merged α}
    (h : mergeBy editOf text items = .ok m) : m.applied.Pairwise fun a b =>
      (editOf b).span.stop ≤ (editOf a).span.start ∧ (editOf b).span.start < (editOf a).span.start := by
  have hfits := (mergeBy_ok_iff editOf text items).1 ⟨m, h⟩
  rw [mergeBy_of_fits hfits] at h
  cases h
  have hall : ∀ span ∈ (items.map editOf).map (·.span), span.fits text.length = true :=
    List.forall_mem_map.2 (List.forall_mem_map.2 hfits)
  have hpick := pairwise_pick_accepted hall
  rw [← map_pick, ← map_pick, List.pairwise_map, List.pairwise_map] at hpick
  exact hpick

/-- Conflicts are resolved by the ranking alone. The numbers of all edits are divided into those that are
taken and those that are left out; an edit is taken exactly if it is clear of all taken edits that outrank
it. So the applied edits come strictly from the last to the first and apart from each other, each one that
is left out ends past the start of an applied one that outranks it or shares its start, and those left out
are listed in the order given, none lost and none made twice. -/
theorem conflicts_resolved (edits : List Edit) (size : Nat) (hfits : ∀ e ∈ edits, e.span.fits size = true) :
    let v := select (edits.map (·.span)) size
    (v.accepted ++ v.skipped).Perm (List.range edits.length) ∧
    (∀ i e, edits[i]? = some e → (i ∈ v.accepted ↔ ∀ j ∈ v.accepted, ∀ taken, edits[j]? = some taken →
      Outranks (j, taken.span) (i, e.span) → e.span.stop ≤ taken.span.start ∧ e.span.start ≠ taken.span.start)) ∧
    (∀ i ∈ v.skipped, ∃ e, edits[i]? = some e ∧ ∃ j ∈ v.accepted, ∃ taken, edits[j]? = some taken ∧
      Outranks (j, taken.span) (i, e.span) ∧ (taken.span.start < e.span.stop ∨ e.span.start = taken.span.start)) ∧
    ∀ text : String, text.length = size → ∃ m, apply text edits = .ok m ∧
      m.applied = pick edits v.accepted ∧
      m.applied.Pairwise (fun a b => b.span.stop ≤ a.span.start ∧ b.span.start < a.span.start) ∧
      m.skipped = pick edits ((List.range edits.length).filter (· ∈ v.skipped)) ∧
      (m.applied ++ m.skipped).Perm edits := by
  intro v
  have hspans : ∀ span ∈ edits.map (·.span), span.fits size = true := List.forall_mem_map.2 hfits
  have hspan : ∀ {i : Nat} {e : Edit}, edits[i]? = some e → (edits.map (·.span))[i]? = some e.span := by
    intro i e h
    rw [List.getElem?_map, h]
    rfl
  have hedit : ∀ {i : Nat} {span : Span}, (edits.map (·.span))[i]? = some span → ∃ e, edits[i]? = some e ∧ e.span = span := by
    intro i span h
    simpa using h
  refine ⟨?_, fun i e hi => ?_, fun i hi => ?_, ?_⟩
  · have hperm := select_perm (edits.map (·.span)) size
    rwa [List.length_map] at hperm
  · rw [select_takes_iff hspans (hspan hi)]
    constructor
    · intro h j hj taken htaken hrank
      obtain ⟨hbelow, hapart⟩ := h j hj taken.span (hspan htaken) hrank
      exact ⟨hbelow, hapart⟩
    · intro h j hj span hj' hrank
      obtain ⟨taken, htaken, rfl⟩ := hedit hj'
      obtain ⟨hbelow, hapart⟩ := h j hj taken htaken hrank
      exact ⟨hbelow, hapart⟩
  · obtain ⟨span, hi, j, hj, other, hj', hblocks⟩ := select_skips hspans hi
    obtain ⟨e, he, rfl⟩ := hedit hi
    obtain ⟨taken, htaken, rfl⟩ := hedit hj'
    exact ⟨e, he, j, hj, taken, htaken, hblocks⟩
  · rintro text rfl
    obtain ⟨m, hm⟩ := (mergeBy_ok_iff id text edits).2 hfits
    have hmerge := hm
    rw [@mergeBy_of_fits Edit id _ _ hfits, List.map_id] at hmerge
    cases hmerge
    exact ⟨_, hm, rfl, pairwise_applied hm, rfl, mergeBy_perm hm⟩

/-- Edits of six characters: the first one reaches into another, and the last ones put text in. -/
def crowded : List Edit :=
  [.replace 0 4 "x", .replace 0 1 "y", .replace 2 1 "z", .insert 4 "w", .insert 6 "end"]

/-- The first edit loses to a later one inside it, and so the second one is taken at the same start. -/
theorem crowded_conflicts_resolved : (∀ e ∈ crowded, e.span.fits 6 = true) ∧
    select (crowded.map (·.span)) 6 = ⟨[4, 3, 2, 1], [0]⟩ ∧
    ∃ m, apply "abcdef" crowded = .ok m ∧
      m.applied = [.insert 6 "end", .insert 4 "w", .replace 2 1 "z", .replace 0 1 "y"] ∧
      m.skipped = [.replace 0 4 "x"] := by
  have hfits : ∀ e ∈ crowded, e.span.fits 6 = true := by decide
  have hselect : select (crowded.map (·.span)) 6 = ⟨[4, 3, 2, 1], [0]⟩ := by cbv
  obtain ⟨-, -, -, hmerge⟩ := conflicts_resolved crowded 6 hfits
  obtain ⟨m, hm, happlied, -, hskipped, -⟩ := hmerge "abcdef" (by decide)
  rw [hselect] at happlied hskipped
  exact ⟨hfits, hselect, m, hm, happlied, hskipped⟩

end Amend.Merge
