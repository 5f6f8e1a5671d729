/-
What the events of one file add up to: the count of fixes is always the number of fixes that stand,
every other count is a plain count, and an error of the whole file or an interruption leaves no fix.
-/
import Amend.Summary
import Amend.Proofs.Selection
import Amend.Proofs.Table

namespace Amend

/-! ## Counts -/

namespace Counts

variable (counts : Counts)

theorem of_add (o o' : Outcome) (n : Int) : (counts.add o n).of o' = counts.of o' + if o = o' then n else 0 := by
  unfold add of
  rw [Table.get?_put]
  split
  · rename_i h; subst h; rfl
  · simp

theorem of_retract_ne {o o' : Outcome} (h : o ≠ o') (n : Int) : (counts.retract o n).of o' = counts.of o' := by
  unfold retract
  simp only
  split
  · unfold of; rw [Table.get?_put, if_neg h]
  · unfold of; rw [Table.get?_erase, if_neg h]

/-- Taking back no more than there is leaves the difference. -/
theorem of_retract {o : Outcome} {n : Int} (h : n ≤ counts.of o) : (counts.retract o n).of o = counts.of o - n := by
  unfold retract
  simp only
  split
  · show ((Table.put counts o _).get? o).getD 0 = _
    rw [Table.get?_put, if_pos rfl]; rfl
  · show ((Table.erase counts o).get? o).getD 0 = _
    rw [Table.get?_erase, if_pos rfl]
    simp only [Option.getD_none]
    omega

/-- Taking back all there is leaves no row. -/
theorem get?_retract_all {o : Outcome} {n : Int} (h : counts.of o ≤ n) : (counts.retract o n).get? o = none := by
  unfold retract
  simp only
  rw [if_neg (by omega), Table.get?_erase, if_pos rfl]

theorem get?_add_ne {o o' : Outcome} (h : o ≠ o') (n : Int) : (counts.add o n).get? o' = counts.get? o' := by
  unfold add
  rw [Table.get?_put, if_neg h]

end Counts

namespace LiveFixes

variable (live : LiveFixes)

theorem total_cons (d : Diagnostic) (n : Nat) (rest : LiveFixes) : total ((d, n) :: rest) = n + total rest := by
  show List.foldl (· + ·) (0 + n) (Table.values rest) = n + List.foldl (· + ·) 0 (Table.values rest)
  rw [Nat.add_comm 0 n, List.foldl_assoc]

theorem of_put (d d' : Diagnostic) (n : Nat) : of (Table.put live d n) d' = if d = d' then n else of live d' := by
  unfold of
  rw [Table.get?_put]
  split <;> rfl

/-- Setting the count of one finding moves the total by the difference. -/
theorem total_put (d : Diagnostic) (n : Nat) : total (Table.put live d n) + of live d = total live + n := by
  induction live with
  | nil => simp [total, of, Table.values]
  | cons row rest ih =>
    obtain ⟨d', m⟩ := row
    unfold Table.put of Table.get?
    by_cases hd : d' = d
    · rw [if_pos hd, if_pos hd, total_cons, total_cons, Option.getD_some]; omega
    · rw [if_neg hd, if_neg hd, total_cons, total_cons]
      have := ih
      unfold of at this
      omega

theorem of_le_total (d : Diagnostic) : of live d ≤ total live := by
  have := total_put live d 0
  omega

end LiveFixes

/-! ## One file -/

namespace FileTally

variable (tally : FileTally) (event : Event)

/-- The count of fixes is the number of fixes that stand. -/
def Balanced (tally : FileTally) : Prop :=
  tally.summary.counts.of .fixed = tally.live.total

theorem balanced_empty (path : String) : (empty path).Balanced := rfl

theorem add_counts : (tally.add event).summary.counts = (tally.settle event).summary.counts.add event.outcome 1 := rfl

theorem add_live : (tally.add event).live = (tally.settle event).live := rfl

/-- All that settling an event can do. -/
inductive Settled : FileTally → Prop
  | fixed (d : Diagnostic) (ho : event.outcome = .fixed) (hd : event.diagnostic = some d) :
      Settled { tally with live := tally.live.put d (tally.live.of d + 1) }
  | undone (d : Diagnostic) (ho : event.outcome = .skippedOverlap) (hd : event.diagnostic = some d)
      (hpos : 0 < tally.live.of d) :
      Settled ⟨tally.summary.retract .fixed 1, tally.live.put d (tally.live.of d - 1)⟩
  | spoiled (ho : event.outcome = .error) (hd : event.diagnostic = none) :
      Settled ⟨tally.summary.retract .fixed tally.live.total, []⟩
  | kept (hfix : event.outcome = .fixed → event.diagnostic = none)
      (hoverlap : ∀ d, event.outcome = .skippedOverlap → event.diagnostic = some d → tally.live.of d = 0)
      (herror : event.outcome = .error → event.diagnostic ≠ none) :
      Settled tally

theorem settled : Settled tally event (tally.settle event) := by
  unfold settle
  split
  · exact .fixed _ ‹_› ‹_›
  · rename_i d ho hd
    split
    · exact .undone d ho hd ‹_›
    -- an overlap of a finding without a standing fix takes nothing back
    · refine .kept (by simp [ho]) (fun d' _ hd' => ?_) (by simp [ho])
      rw [hd] at hd'
      cases hd'
      omega
  · exact .spoiled ‹_› ‹_›
  · rename_i hfix hoverlap herror
    refine .kept (fun ho => ?_) (fun d ho hd => (hoverlap d ho hd).elim) herror
    exact Option.eq_none_iff_forall_ne_some.2 fun d hd => hfix d ho hd

/-- Settling an event touches no count but that of fixes. -/
theorem settle_of {o : Outcome} (ho : o ≠ .fixed) :
    (tally.settle event).summary.counts.of o = tally.summary.counts.of o := by
  have hsettled := settled tally event
  generalize tally.settle event = t at hsettled ⊢
  cases hsettled with
  | fixed | kept => rfl
  | undone | spoiled => exact Counts.of_retract_ne _ (Ne.symm ho) _

/-- Each outcome but a fix is counted as often as it is reported. -/
theorem add_of {o : Outcome} (ho : o ≠ .fixed) :
    (tally.add event).summary.counts.of o = tally.summary.counts.of o + if event.outcome = o then 1 else 0 := by
  rw [add_counts, Counts.of_add, settle_of tally event ho]

theorem settle_fixed {d : Diagnostic} (ho : event.outcome = .fixed) (hd : event.diagnostic = some d) :
    tally.settle event = { tally with live := tally.live.put d (tally.live.of d + 1) } := by
  simp only [settle, ho, hd]

theorem settle_overlap {d : Diagnostic} (ho : event.outcome = .skippedOverlap) (hd : event.diagnostic = some d)
    (hpos : 0 < tally.live.of d) :
    tally.settle event = ⟨tally.summary.retract .fixed 1, tally.live.put d (tally.live.of d - 1)⟩ := by
  simp only [settle, ho, hd]
  rw [if_pos hpos]

theorem settle_error (ho : event.outcome = .error) (hd : event.diagnostic = none) :
    tally.settle event = ⟨tally.summary.retract .fixed tally.live.total, []⟩ := by
  simp only [settle, ho, hd]

/-- The count of fixes is `n` more than the number of fixes that stand. -/
def Exceeds (n : Nat) (tally : FileTally) : Prop :=
  tally.summary.counts.of .fixed = n + tally.live.total

theorem exceeds_zero_iff : tally.Exceeds 0 ↔ tally.Balanced := by
  unfold Exceeds Balanced
  omega

/-- Is it a fix that names no finding? -/
def isBareFix (event : Event) : Bool :=
  event.outcome = .fixed ∧ event.diagnostic = none

variable {tally}

/-- Settling an event other than a fix keeps the balance. -/
theorem exceeds_settle {n : Nat} (h : tally.Exceeds n) {event : Event} (hne : event.outcome ≠ .fixed) :
    (tally.settle event).Exceeds n := by
  unfold Exceeds at *
  have hsettled := settled tally event
  generalize tally.settle event = t at hsettled ⊢
  cases hsettled with
  | fixed d ho => exact absurd ho hne
  | undone d ho hd hpos =>
    have ht := LiveFixes.total_put tally.live d (tally.live.of d - 1)
    have hle := LiveFixes.of_le_total tally.live d
    have hr := Counts.of_retract tally.summary.counts (o := .fixed) (n := 1) (by omega)
    show (tally.summary.counts.retract .fixed 1).of .fixed = n + LiveFixes.total (tally.live.put d (tally.live.of d - 1))
    rw [hr, h]
    omega
  | spoiled =>
    have hr := Counts.of_retract tally.summary.counts (o := .fixed) (n := tally.live.total) (by omega)
    show (tally.summary.counts.retract .fixed tally.live.total).of .fixed = n + 0
    rw [hr, h]
    omega
  | kept => exact h

/-- Taking an event in keeps the balance, but for a fix that names no finding. -/
theorem exceeds_add {n : Nat} (h : tally.Exceeds n) (event : Event) :
    (tally.add event).Exceeds (n + if isBareFix event then 1 else 0) := by
  unfold Exceeds
  rw [add_counts, Counts.of_add, add_live]
  by_cases ho : event.outcome = .fixed
  · have hb : tally.summary.counts.of .fixed = n + tally.live.total := h
    rw [if_pos ho]
    rcases hd : event.diagnostic with _ | d
    · have hset : tally.settle event = tally := by simp only [settle, ho, hd]
      simp only [hset, isBareFix, ho, hd, and_self, decide_true, if_true]
      omega
    · have ht := LiveFixes.total_put tally.live d (tally.live.of d + 1)
      simp only [settle_fixed tally event ho hd, isBareFix, ho, hd, reduceCtorEq, and_false, decide_false,
        Bool.false_eq_true, if_false]
      omega
  · have hb : (tally.settle event).summary.counts.of .fixed = n + (tally.settle event).live.total :=
      exceeds_settle h ho
    simp only [hb, isBareFix, ho, false_and, decide_false, Bool.false_eq_true, if_false]
    omega

theorem exceeds_foldl (events : List Event) : ∀ {n : Nat} {tally : FileTally}, tally.Exceeds n →
    (events.foldl add tally).Exceeds (n + events.countP isBareFix) := by
  induction events with
  | nil => intro n tally h; exact h
  | cons e rest ih =>
    intro n tally h
    rw [List.countP_cons, Nat.add_comm (rest.countP isBareFix), ← Nat.add_assoc]
    exact ih (exceeds_add h e)

/-- Events keep the balance, if each fix names its finding. -/
theorem balanced_foldl {events : List Event} (he : ∀ e ∈ events, e.outcome = .fixed → ∃ d, e.diagnostic = some d)
    (h : tally.Balanced) : (events.foldl add tally).Balanced := by
  have hnone : events.countP isBareFix = 0 := by
    refine List.countP_eq_zero.2 fun e hm hbare => ?_
    obtain ⟨ho, hd⟩ := of_decide_eq_true hbare
    obtain ⟨d, hd'⟩ := he e hm ho
    rw [hd] at hd'
    cases hd'
  have hfold := exceeds_foldl events ((exceeds_zero_iff tally).2 h)
  rw [hnone] at hfold
  exact (exceeds_zero_iff _).1 hfold

theorem foldl_of {o : Outcome} (ho : o ≠ .fixed) (events : List Event) : ∀ tally : FileTally,
    (events.foldl add tally).summary.counts.of o = tally.summary.counts.of o + Selection.tallyOf o events := by
  induction events with
  | nil => intro tally; simp [Selection.tallyOf]
  | cons e rest ih =>
    intro tally
    rw [List.foldl_cons, ih, add_of tally e ho]
    unfold Selection.tallyOf
    rw [List.countP_cons]
    by_cases h : e.outcome = o
    · simp [h]; omega
    · simp [h]

/-- An error of the whole file leaves no fix. -/
theorem no_fixed_of_error {tally : FileTally} (h : tally.Balanced) {event : Event} (ho : event.outcome = .error)
    (hd : event.diagnostic = none) : (tally.add event).summary.counts.get? .fixed = none := by
  rw [add_counts, Counts.get?_add_ne _ (by rw [ho]; decide), settle_error tally event ho hd]
  exact Counts.get?_retract_all _ (Int.le_of_eq h)

/-- An interruption leaves no fix. -/
theorem no_fixed_of_interrupt {tally : FileTally} (h : tally.Balanced) :
    tally.interrupt.summary.counts.get? .fixed = none :=
  Counts.get?_retract_all _ (Int.le_of_eq h)

/-! ### The fixes that stand -/

/-- After events of a selection the fixes that stand are those that were reported. -/
theorem live_foldl {events : List Event}
    (he : ∀ e ∈ events, (∃ d, e.diagnostic = some d) ∧ e.outcome ≠ .skippedOverlap) :
    ∀ tally : FileTally, (events.foldl add tally).live.total = tally.live.total + (Selection.fixedIn events).length ∧
      ∀ d, (events.foldl add tally).live.of d = tally.live.of d + (Selection.fixedIn events).count d := by
  induction events with
  | nil => intro tally; exact ⟨rfl, fun _ => rfl⟩
  | cons e rest ih =>
    intro tally
    obtain ⟨⟨d, hd⟩, hno⟩ := he e (List.mem_cons_self ..)
    obtain ⟨ht, hof⟩ := ih (fun e' he' => he e' (List.mem_cons_of_mem _ he')) (tally.add e)
    rw [List.foldl_cons, ht]
    by_cases ho : e.outcome = .fixed
    · have hfix : Selection.fixedIn (e :: rest) = d :: Selection.fixedIn rest := by
        simp [Selection.fixedIn, ho, hd]
      have hput := LiveFixes.total_put tally.live d (tally.live.of d + 1)
      rw [hfix, add_live, settle_fixed tally e ho hd]
      refine ⟨by simp only [List.length_cons]; omega, fun d' => ?_⟩
      rw [hof, add_live, settle_fixed tally e ho hd, LiveFixes.of_put, List.count_cons]
      by_cases hdd : d = d'
      · simp [hdd]; omega
      · simp [hdd]
    · have hfix : Selection.fixedIn (e :: rest) = Selection.fixedIn rest := by
        simp [Selection.fixedIn, ho]
      -- only overlaps and errors of a whole file take fixes back
      have hset : (tally.settle e).live = tally.live := by
        have hsettled := settled tally e
        generalize tally.settle e = t at hsettled ⊢
        cases hsettled with
        | fixed _ h => exact absurd h ho
        | undone _ h => exact absurd h hno
        | spoiled _ h => rw [hd] at h; cases h
        | kept => rfl
      rw [hfix, add_live, hset]
      refine ⟨rfl, fun d' => ?_⟩
      rw [hof, add_live, hset]

/-- Each finding that is reported as an overlap takes one standing fix back. -/
theorem live_overlaps (path detail : String) {ds : List Diagnostic} (hn : ds.Nodup) :
    ∀ tally : FileTally, (∀ d ∈ ds, 0 < tally.live.of d) →
      ((ds.map fun d => (⟨some path, some d, .skippedOverlap, detail⟩ : Event)).foldl add tally).live.total
        + ds.length = tally.live.total := by
  induction ds with
  | nil => intro tally _; rfl
  | cons d rest ih =>
    intro tally hpos
    obtain ⟨hd, hn'⟩ := List.nodup_cons.1 hn
    have hset := settle_overlap tally ⟨some path, some d, .skippedOverlap, detail⟩ rfl rfl
      (hpos d (List.mem_cons_self ..))
    have hput := LiveFixes.total_put tally.live d (tally.live.of d - 1)
    have hd0 := hpos d (List.mem_cons_self ..)
    rw [List.map_cons, List.foldl_cons, List.length_cons]
    have := ih hn' (tally.add ⟨some path, some d, .skippedOverlap, detail⟩) fun d' hd' => by
      rw [add_live, hset, LiveFixes.of_put, if_neg (by rintro rfl; exact hd hd')]
      exact hpos d' (List.mem_cons_of_mem _ hd')
    rw [add_live, hset] at this
    simp only at this
    omega

end FileTally

end Amend
