/-
The meaning of a summary. A file counts each outcome but a fix as often as its events report it, and
as fixes those that stand once its events have been scanned for each finding, with those that name no
finding. The totals are the sums over the files, with the events that have no file.
-/
import Amend.Proofs.Summary.Totals
import Mathlib

namespace Amend

namespace LiveFixes

variable (live : LiveFixes)

/-- Setting the count of one finding moves a sum that has it by the difference. -/
theorem sum_put {S : Finset Diagnostic} {d : Diagnostic} (hd : d ∈ S) (n : Nat) :
    ∑ d' ∈ S, of (Table.put live d n) d' + of live d = ∑ d' ∈ S, of live d' + n := by
  rw [← Finset.add_sum_erase S (of (Table.put live d n)) hd, ← Finset.add_sum_erase S (of live) hd]
  have hrest : ∑ d' ∈ S.erase d, of (Table.put live d n) d' = ∑ d' ∈ S.erase d, of live d' :=
    Finset.sum_congr rfl fun d' hd' => by rw [of_put, if_neg (Finset.ne_of_mem_erase hd').symm]
  rw [hrest, of_put, if_pos rfl]
  omega

end LiveFixes

namespace FileTally

/-! ## The scan of one finding -/

/-- What an event does to the number of fixes of a finding that stand: a fix adds one, an overlap takes
one back if there is one, and an error of the whole file takes all back. -/
def scan (d : Diagnostic) (n : Nat) (event : Event) : Nat :=
  match event.outcome, event.diagnostic with
  | .fixed, some d' => if d' = d then n + 1 else n
  | .skippedOverlap, some d' => if d' = d then n - 1 else n
  | .error, none => 0
  | _, _ => n

/-- The fixes of a finding that stand after events. -/
def standing (d : Diagnostic) (events : List Event) : Nat :=
  events.foldl (scan d) 0

theorem of_settle (tally : FileTally) (event : Event) (d : Diagnostic) :
    (tally.settle event).live.of d = scan d (tally.live.of d) event := by
  have hsettled := settled tally event
  generalize tally.settle event = t at hsettled ⊢
  cases hsettled with
  | fixed d' ho hd =>
    simp only [scan, ho, hd, LiveFixes.of_put]
    split
    · rename_i h; rw [h]
    · rfl
  | undone d' ho hd hpos =>
    simp only [scan, ho, hd, LiveFixes.of_put]
    split
    · rename_i h; rw [h]
    · rfl
  | spoiled ho hd => simp only [scan, ho, hd]; rfl
  | kept hfix hoverlap herror =>
    unfold scan
    split
    · rename_i ho hd
      rw [hfix ho] at hd
      cases hd
    · rename_i d' ho hd
      split
      · rename_i h
        rw [← h, hoverlap d' ho hd]
      · rfl
    · exact absurd ‹_› (herror ‹_›)
    · rfl

theorem of_ofEvents (path : String) (events : List Event) (d : Diagnostic) :
    (ofEvents path events).live.of d = standing d events := by
  have h : ∀ tally : FileTally, (events.foldl add tally).live.of d = events.foldl (scan d) (tally.live.of d) := by
    induction events with
    | nil => intro tally; rfl
    | cons e rest ih =>
      intro tally
      rw [List.foldl_cons, List.foldl_cons, ih, add_live, of_settle]
  exact h (empty path)

/-! ## The sum over findings -/

/-- The findings that events name. -/
def reported (events : List Event) : Finset Diagnostic :=
  (events.filterMap (·.diagnostic)).toFinset

/-- The fixes that stand are those of the findings of a set. -/
def Within (S : Finset Diagnostic) (tally : FileTally) : Prop :=
  tally.live.total = ∑ d ∈ S, tally.live.of d

theorem within_settle {S : Finset Diagnostic} {tally : FileTally} (h : tally.Within S) {event : Event}
    (hS : ∀ d, event.diagnostic = some d → d ∈ S) : (tally.settle event).Within S := by
  unfold Within at *
  have hsettled := settled tally event
  generalize tally.settle event = t at hsettled ⊢
  cases hsettled with
  | fixed d ho hd =>
    have ht := LiveFixes.total_put tally.live d (tally.live.of d + 1)
    have hs := LiveFixes.sum_put tally.live (hS d hd) (tally.live.of d + 1)
    simp only
    omega
  | undone d ho hd hpos =>
    have ht := LiveFixes.total_put tally.live d (tally.live.of d - 1)
    have hs := LiveFixes.sum_put tally.live (hS d hd) (tally.live.of d - 1)
    simp only
    omega
  | spoiled => simp [LiveFixes.total, LiveFixes.of, Table.values]
  | kept => exact h

theorem within_foldl {S : Finset Diagnostic} {events : List Event} :
    ∀ {tally : FileTally}, tally.Within S → (∀ e ∈ events, ∀ d, e.diagnostic = some d → d ∈ S) →
      (events.foldl add tally).Within S := by
  induction events with
  | nil => intro tally h _; exact h
  | cons e rest ih =>
    intro tally h hS
    rw [List.forall_mem_cons] at hS
    exact ih (within_settle h hS.1) hS.2

/-- The fixes of a file that stand are those of the findings that its events name. -/
theorem total_ofEvents (path : String) (events : List Event) :
    (ofEvents path events).live.total = ∑ d ∈ reported events, standing d events := by
  have hempty : (empty path).Within (reported events) := by
    simp [Within, empty, LiveFixes.total, LiveFixes.of, Table.values]
  have hwithin : (ofEvents path events).Within (reported events) := within_foldl hempty fun e he d hd =>
    List.mem_toFinset.2 (List.mem_filterMap.2 ⟨e, he, hd⟩)
  rw [hwithin]
  exact Finset.sum_congr rfl fun d _ => of_ofEvents path events d

end FileTally

namespace Counts

/-! ## Sums of counts -/

variable {counts : Counts}

theorem nodup_add (h : counts.keys.Nodup) (o : Outcome) (n : Int) : (counts.add o n).keys.Nodup :=
  Table.nodup_put h o _

theorem nodup_retract (h : counts.keys.Nodup) (o : Outcome) (n : Int) : (counts.retract o n).keys.Nodup := by
  unfold retract
  simp only
  split
  · exact Table.nodup_put h o _
  · exact Table.nodup_erase h o

/-- The counts of an outcome, added up. -/
def sumOf (o : Outcome) (rows : List (Outcome × Int)) : Int :=
  (rows.map fun row => if row.1 = o then row.2 else 0).sum

theorem sumOf_append (o : Outcome) (a b : List (Outcome × Int)) : sumOf o (a ++ b) = sumOf o a + sumOf o b := by
  unfold sumOf
  rw [List.map_append, List.sum_append]

theorem of_foldl_add (o : Outcome) (rows : List (Outcome × Int)) : ∀ counts : Counts,
    (rows.foldl (fun c row => Counts.add c row.1 row.2) counts).of o = counts.of o + sumOf o rows := by
  induction rows with
  | nil => intro counts; simp [sumOf]
  | cons row rest ih =>
    intro counts
    rw [List.foldl_cons, ih, of_add, Int.add_assoc]
    rfl

/-- Counts without repeated outcomes add up to what an outcome is looked up as. -/
theorem sumOf_of_nodup (h : counts.keys.Nodup) (o : Outcome) : sumOf o counts = counts.of o := by
  induction counts with
  | nil => rfl
  | cons row rest ih =>
    obtain ⟨o', n⟩ := row
    obtain ⟨ho', hn⟩ : o' ∉ Table.keys rest ∧ (Table.keys rest).Nodup := List.nodup_cons.1 h
    have hcons : sumOf o ((o', n) :: rest) = (if o' = o then n else 0) + sumOf o rest := rfl
    have hof : of ((o', n) :: rest) o = if o' = o then n else of rest o := by
      simp only [of, Table.get?]
      split <;> rfl
    rw [hcons, hof, ih hn]
    by_cases ho : o' = o
    · have hnone : of rest o = 0 := by
        unfold of
        rw [(Table.get?_eq_none_iff rest o).2 (ho ▸ ho'), Option.getD_none]
      rw [if_pos ho, if_pos ho, hnone, Int.add_zero]
    · rw [if_neg ho, if_neg ho, Int.zero_add]

theorem sumOf_flatMap {α : Type} (o : Outcome) (f : α → List (Outcome × Int)) (items : List α) :
    sumOf o (items.flatMap f) = (items.map fun a => sumOf o (f a)).sum := by
  induction items with
  | nil => rfl
  | cons a rest ih => rw [List.flatMap_cons, sumOf_append, ih, List.map_cons, List.sum_cons]

theorem sumOf_events (o : Outcome) (events : List Event) :
    sumOf o (events.map fun event => (event.outcome, (1 : Int))) = Selection.tallyOf o events := by
  induction events with
  | nil => rfl
  | cons e rest ih =>
    have hcons : sumOf o ((e :: rest).map fun event => (event.outcome, (1 : Int))) =
        (if e.outcome = o then 1 else 0) + sumOf o (rest.map fun event => (event.outcome, (1 : Int))) := rfl
    rw [hcons, ih]
    unfold Selection.tallyOf
    rw [List.countP_cons]
    by_cases ho : e.outcome = o
    · simp [ho]; omega
    · simp [ho]

end Counts

namespace Summary

/-! ## Summaries -/

variable {events : List Event} {written interrupted : List String} {diffs : Table String String}

/-- What holds of the counts of a file once its events are in, if adding and taking back keep it. -/
theorem closed_induction {P : Counts → Prop} (hnil : P []) (hadd : ∀ counts o, P counts → P (counts.add o 1))
    (hretract : ∀ counts n, P counts → P (counts.retract .fixed n)) (path : String) (mine : List Event)
    (interrupted : Bool) : P (closed path mine interrupted).summary.counts := by
  have h := FileTally.counts_induction hnil hadd hretract path mine
  cases interrupted with
  | false => exact h
  | true => exact hretract _ _ h

/-- What a file counts after its events: each outcome but a fix as often as it is reported, and as fixes
those without a finding, with those of its findings that stand unless it was interrupted. -/
structure Counted (mine : List Event) (interrupted : Bool) (counts : Counts) : Prop where
  others : ∀ o, o ≠ .fixed → counts.of o = Selection.tallyOf o mine
  fixed : counts.of .fixed = mine.countP FileTally.isBareFix +
    if interrupted then 0 else ∑ d ∈ FileTally.reported mine, (FileTally.standing d mine : Int)
  positive : counts.Positive

theorem closed_counted (path : String) (mine : List Event) (interrupted : Bool) :
    Counted mine interrupted (closed path mine interrupted).summary.counts := by
  have hother : ∀ o, o ≠ .fixed → (FileTally.ofEvents path mine).summary.counts.of o = Selection.tallyOf o mine := by
    intro o ho
    unfold FileTally.ofEvents
    rw [FileTally.foldl_of ho]
    exact Int.zero_add _
  have hexceeds : (FileTally.ofEvents path mine).Exceeds (0 + mine.countP FileTally.isBareFix) :=
    FileTally.exceeds_foldl mine ((FileTally.exceeds_zero_iff _).2 (FileTally.balanced_empty path))
  unfold FileTally.Exceeds at hexceeds
  have htotal := FileTally.total_ofEvents path mine
  refine ⟨fun o ho => ?_, ?_, ?_⟩
  · cases interrupted with
    | false => exact hother o ho
    | true => exact (Counts.of_retract_ne _ (Ne.symm ho) _).trans (hother o ho)
  · cases interrupted with
    | false =>
      show (FileTally.ofEvents path mine).summary.counts.of .fixed = _
      rw [hexceeds, htotal]
      simp
    | true =>
      -- an interruption takes back all fixes that stand, and no other
      show ((FileTally.ofEvents path mine).summary.counts.retract .fixed _).of .fixed = _
      rw [Counts.of_retract _ (by omega), hexceeds]
      simp
  · exact closed_induction Counts.positive_nil (fun _ o h => h.add o Int.one_pos) (fun _ n h => h.retract .fixed n) path
      mine interrupted

theorem nodup_files (events : List Event) (written : List String) (diffs : Table String String) (cancelled : Bool)
    (interrupted : List String) : (ofEvents events written diffs cancelled interrupted).files.keys.Nodup := by
  have honFile : ∀ (tally : RunTally) path f, tally.files.keys.Nodup → (tally.onFile path f).files.keys.Nodup :=
    fun _ path _ h => Table.nodup_put h path _
  have hadded : (RunTally.ofEvents events).files.keys.Nodup := by
    have hempty : (⟨[], []⟩ : RunTally).files.keys.Nodup := List.nodup_nil
    refine List.foldlRecOn (motive := fun t => t.files.keys.Nodup) events RunTally.add hempty fun t h e _ => ?_
    unfold RunTally.add
    split
    · exact h
    · exact honFile t _ _ h
  have hinterrupted : (interrupted.foldl RunTally.interrupt (RunTally.ofEvents events)).files.keys.Nodup := by
    refine List.foldlRecOn (motive := fun t => t.files.keys.Nodup) interrupted RunTally.interrupt hadded
      fun t h path _ => ?_
    unfold RunTally.interrupt
    split
    · exact honFile t path _ h
    · exact h
  have hwritten := List.foldlRecOn (motive := fun t => t.files.keys.Nodup) written RunTally.markWritten hinterrupted
    fun t h path _ => honFile t path _ h
  have hdiffs := List.foldlRecOn (motive := fun t => t.files.keys.Nodup) diffs
    (fun t row => RunTally.setDiff t row.1 row.2) hwritten fun t h row _ => honFile t row.1 _ h
  -- the summary has the keys of the tally
  unfold ofEvents Table.keys
  rw [List.map_map]
  exact hdiffs

/-- The total of an outcome is the sum of its counts over the files, with the events that have no file. -/
theorem of_totals {summary : Summary} (h : ∀ row ∈ summary.files, row.2.counts.keys.Nodup) (o : Outcome) :
    summary.totals.of o =
      (summary.files.values.map (·.counts.of o)).sum + Selection.tallyOf o summary.unresolved := by
  have hfiles : summary.files.values.map (fun file => Counts.sumOf o file.counts) =
      summary.files.values.map (·.counts.of o) := by
    refine List.map_congr_left fun file hfile => ?_
    obtain ⟨row, hrow, rfl⟩ := List.mem_map.1 hfile
    exact Counts.sumOf_of_nodup (h row hrow) o
  unfold totals
  simp only
  rw [Counts.of_foldl_add, Counts.sumOf_append, Counts.sumOf_flatMap, Counts.sumOf_events, hfiles]
  exact Int.zero_add _

/-- A file has an entry exactly if it has events, was written or has a diff. -/
theorem exists_entryOf_iff {path : String} {mine : List Event} {interrupted written : Bool} {diff : Option String} :
    (∃ file, entryOf path mine interrupted written diff = some file) ↔
      mine ≠ [] ∨ written = true ∨ diff.isSome = true := by
  unfold entryOf
  rcases mine with _ | ⟨e, rest⟩ <;> cases written <;> cases diff <;> simp

/-- What a summary of events means. -/
structure Means (events : List Event) (written : List String) (diffs : Table String String) (interrupted : List String)
    (summary : Summary) : Prop where
  nodup : summary.files.keys.Nodup
  paths : ∀ path, path ∈ summary.files.keys ↔
    (∃ e ∈ events, e.path = some path) ∨ path ∈ written ∨ path ∈ diffs.keys
  counted : ∀ row ∈ summary.files,
    Counted (events.filter (·.path = some row.1)) (interrupted.contains row.1) row.2.counts
  totals : ∀ o, summary.totals.of o =
    (summary.files.values.map (·.counts.of o)).sum + Selection.tallyOf o (events.filter (·.path = none))

theorem ofEvents_means (hi : interrupted.Nodup) (hd : diffs.keys.Nodup) (cancelled : Bool) :
    Means events written diffs interrupted (ofEvents events written diffs cancelled interrupted) := by
  have hnodup := nodup_files events written diffs cancelled interrupted
  have hclosed : ∀ row ∈ (ofEvents events written diffs cancelled interrupted).files, row.2.counts =
      (closed row.1 (events.filter (·.path = some row.1)) (interrupted.contains row.1)).summary.counts := by
    intro row hrow
    have hfile := Table.get?_of_mem hnodup hrow
    rw [get?_ofEvents hi hd] at hfile
    exact (of_entryOf hfile).1
  refine ⟨hnodup, fun path => ?_, fun row hrow => ?_, fun o => ?_⟩
  · rw [Table.mem_keys_iff, get?_ofEvents hi hd, exists_entryOf_iff, Table.mem_keys_iff, Option.isSome_iff_exists]
    simp
  · rw [hclosed row hrow]
    exact closed_counted row.1 _ _
  · rw [← unresolved_ofEvents events written interrupted diffs cancelled]
    refine of_totals (fun row hrow => ?_) o
    rw [hclosed row hrow]
    exact @closed_induction (fun counts => counts.keys.Nodup) List.nodup_nil (fun _ o h => Counts.nodup_add h o 1)
      (fun _ n h => Counts.nodup_retract h .fixed n) row.1 _ _

/-- Events that revise each other: two fixes of a finding of which one is undone, a fix without a finding,
an overlap without a fix, an error of a whole file, and an event without a file. -/
def revisedEvents : List Event :=
  let d : Diagnostic := ⟨"E1", some "a", 0, 1, ""⟩
  [⟨some "a", some d, .fixed, ""⟩, ⟨some "a", none, .fixed, ""⟩, ⟨some "a", some d, .fixed, ""⟩,
    ⟨some "a", some d, .skippedOverlap, ""⟩, ⟨some "b", some d, .skippedOverlap, ""⟩, ⟨some "b", some d, .fixed, ""⟩,
    ⟨some "b", none, .error, "lost"⟩, ⟨some "c", some d, .fixed, ""⟩, ⟨none, some d, .error, ""⟩]

theorem revised_means :
    ["c"].Nodup ∧ (Table.keys [("d", "+ x")]).Nodup ∧
    (ofEvents revisedEvents ["a"] [("d", "+ x")] true ["c"]).files.map (fun row => (row.1, row.2.counts)) =
      [("a", [(.fixed, 2), (.skippedOverlap, 1)]), ("b", [(.skippedOverlap, 1), (.error, 1)]), ("c", []), ("d", [])] ∧
    Means revisedEvents ["a"] [("d", "+ x")] ["c"] (ofEvents revisedEvents ["a"] [("d", "+ x")] true ["c"]) :=
  ⟨by decide, by decide, by decide, ofEvents_means (by decide) (by decide) true⟩

end Summary

end Amend
