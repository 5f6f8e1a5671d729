/-
Summaries tell the truth. The counts of a file come out of three parties that revise each other: the
selection reports fixes, the merge reports those that lost all their edits, and errors and
interruptions take fixes back. For a file that came through, the fixes that are counted are the
findings with an edit in the merged text, the overlaps are the findings that lost all theirs, and
every finding that passed the rules is counted once. A file with an error, or one that was
interrupted, counts no fix and is not written.
-/
import Amend.Proofs.Run.Report
import Mathlib.Data.Finset.Card

namespace Amend.Run

/-! ## The fate of a file -/

/-- The work on a file came through, with these events. -/
structure Clean (setup : Setup) (w : Work) (events : List Event) (document : Document) (r : PatchResult) : Prop where
  loaded : w.loaded = .ok document
  ending : (w.selection setup document).ending = .ok ()
  apply : (w.selection setup document).patches.apply document = .ok r
  events : events = (w.selection setup document).journal.events ++ overlapEvents w.path r

section Fates

variable {setup : Setup} {w : Work} {events : List Event} {calls : List WriterCall}
  {result : Except Failure FileResult}

theorem Merges.clean {document : Document} {r : PatchResult} (hm : Merges setup w document r) :
    Clean setup w ((w.selection setup document).journal.events ++ overlapEvents w.path r) document r :=
  ⟨hm.loaded, hm.ending, hm.apply, rfl⟩

/-- A file comes through, or has an error and is not written, or is interrupted. -/
theorem Course.fate (h : Course setup w events calls result) :
    (∃ document r file, Clean setup w events document r ∧ result = .ok file) ∨
    (∃ before detail file, events = before ++ [errorEvent w.path detail] ∧ result = .ok file ∧ file.written = false) ∨
    (∃ failure, result = .error failure) := by
  cases h with
  | unloaded fault detail hl => exact .inr (.inl ⟨[], detail, _, rfl, rfl, rfl⟩)
  | broken document failure hl he hc => exact .inr (.inl ⟨_, _, _, rfl, rfl, rfl⟩)
  | interrupted document failure hl he hc => exact .inr (.inr ⟨failure, rfl⟩)
  | idle document hl he hp =>
    obtain ⟨r, hr, -, hskipped⟩ := PatchSet.apply_nil (w.selection setup document).patches.path document
    have hset : (w.selection setup document).patches = ⟨(w.selection setup document).patches.path, []⟩ := by
      rw [← hp]
    refine .inl ⟨document, r, _, ⟨hl, he, hset ▸ hr, ?_⟩, rfl⟩
    simp [overlapEvents, PatchResult.droppedDiagnostics, PatchResult.skippedDiagnostics, hskipped, firstOccurrences]
  | misfit document e hl he hp ha => exact .inr (.inl ⟨_, _, _, rfl, rfl, rfl⟩)
  | unchanged document r hm hc => exact .inl ⟨document, r, _, hm.clean, rfl⟩
  | dry document r hm hc hd => exact .inl ⟨document, r, _, hm.clean, rfl⟩
  | written document r hm hc hd hw => exact .inl ⟨document, r, _, hm.clean, rfl⟩
  | unwritten document r failure diff hm hc hd hw hf => exact .inr (.inl ⟨_, _, _, rfl, rfl, rfl⟩)
  | stopped document r failure hm hc hd hw hf => exact .inr (.inr ⟨failure, rfl⟩)

/-- The events of a selection are on findings, and none is an error or an overlap. -/
theorem outcome_of_mem_selection {document : Document} :
    ∀ e ∈ (w.selection setup document).journal.events,
      (∃ d, e.diagnostic = some d) ∧ e.outcome ≠ .skippedOverlap ∧ e.outcome ≠ .error := by
  intro e he
  obtain ⟨-, ⟨d, -, hd⟩, ho⟩ := (w.sound setup document).shape e he
  refine ⟨⟨d, hd⟩, ?_⟩
  rcases ho with ho | ho | ho | ho <;> simp [ho]

theorem outcome_of_mem_overlapEvents {path : String} {r : PatchResult} :
    ∀ e ∈ overlapEvents path r, e.outcome = .skippedOverlap := by
  intro e he
  obtain ⟨d, -, rfl⟩ := List.mem_map.1 he
  rfl

theorem Clean.no_error {document : Document} {r : PatchResult} (hc : Clean setup w events document r) :
    ∀ e ∈ events, e.outcome ≠ .error := by
  intro e he
  rw [hc.events] at he
  rcases List.mem_append.1 he with he | he
  · exact (outcome_of_mem_selection e he).2.2
  · rw [outcome_of_mem_overlapEvents e he]; decide

/-- Every fix that is reported names its finding. -/
theorem Course.named_fixes (h : Course setup w events calls result) :
    ∀ e ∈ events, e.outcome = .fixed → ∃ d, e.diagnostic = some d := by
  intro e he ho
  have hselection : ∀ document, e ∈ (w.selection setup document).journal.events → ∃ d, e.diagnostic = some d :=
    fun document hm => (outcome_of_mem_selection e hm).1
  have hoverlap : ∀ r, e ∈ overlapEvents w.path r → ∃ d, e.diagnostic = some d := by
    intro r hm
    rw [outcome_of_mem_overlapEvents e hm] at ho
    cases ho
  have herror : ∀ detail, e ∈ [errorEvent w.path detail] → ∃ d, e.diagnostic = some d := by
    intro detail hm
    rw [List.mem_singleton.1 hm] at ho
    cases ho
  cases h with
  | unloaded fault detail hl => exact herror _ he
  | interrupted document | idle document => exact hselection _ he
  | broken document | misfit document => exact (List.mem_append.1 he).elim (hselection _) (herror _)
  | unchanged document | dry document | written document | stopped document =>
    exact (List.mem_append.1 he).elim (hselection _) (hoverlap _)
  | unwritten document =>
    exact (List.mem_append.1 he).elim (fun he => (List.mem_append.1 he).elim (hselection _) (hoverlap _)) (herror _)

theorem balanced_ofEvents (h : Course setup w events calls result) :
    (FileTally.ofEvents w.path events).Balanced :=
  FileTally.balanced_foldl h.named_fixes (FileTally.balanced_empty w.path)

end Fates

/-! ## Counts of a file that came through -/

/-- What the counts of a file say of its findings, the fixes chosen for them and the merge: fixes are
the findings with an edit in the merged text, overlaps those whose edits were all left out, and each
finding that passes the rules is counted once. -/
structure Tells (setup : Setup) (ds : List Diagnostic) (document : Document) (r : PatchResult) (counts : Counts) :
    Prop where
  fixed : counts.of .fixed = (r.applied.map (·.diagnostic)).toFinset.card
  overlap : counts.of .skippedOverlap =
    (((chosen setup document ds).patches.patches.map (·.diagnostic)).toFinset.filter fun d =>
      r.skipped.countP (·.diagnostic = d) = (chosen setup document ds).patches.patches.countP (·.diagnostic = d)).card
  total : counts.of .fixed + counts.of .skippedDuplicate + counts.of .skippedOverlap + counts.of .noFix =
    (ds.filter setup.options.rules.passes).length

section Counting

variable {setup : Setup} {w : Work} {events : List Event} {document : Document} {r : PatchResult}

/-- The findings whose edits were all left out are those that the merge dropped. -/
theorem mem_dropped_iff {patches : List Patch} (hp : (r.applied ++ r.skipped).Perm patches) (d : Diagnostic) :
    d ∈ r.droppedDiagnostics ↔ d ∈ patches.map (·.diagnostic) ∧
      r.skipped.countP (·.diagnostic = d) = patches.countP (·.diagnostic = d) := by
  have hcount : patches.countP (·.diagnostic = d) =
      r.applied.countP (·.diagnostic = d) + r.skipped.countP (·.diagnostic = d) := by
    rw [← hp.countP_eq, List.countP_append]
  have hmem : d ∈ patches.map (·.diagnostic) ↔
      d ∈ r.applied.map (·.diagnostic) ∨ d ∈ r.skipped.map (·.diagnostic) := by
    rw [← (hp.map _).mem_iff, List.map_append, List.mem_append]
  have hzero : r.applied.countP (·.diagnostic = d) = 0 ↔ d ∉ r.applied.map (·.diagnostic) := by
    rw [List.countP_eq_zero]
    simp
  rw [PatchResult.mem_droppedDiagnostics_iff, hmem, hcount]
  constructor
  · rintro ⟨hs, ha⟩
    exact ⟨.inr hs, by rw [hzero.2 ha]; omega⟩
  · rintro ⟨hor, he⟩
    have ha : d ∉ r.applied.map (·.diagnostic) := hzero.1 (by omega)
    exact ⟨hor.resolve_left ha, ha⟩

/-- The fixes that a selection reports are those that the merge kept and those that it dropped. -/
theorem Clean.card_fixed (hc : Clean setup w events document r) :
    (r.applied.map (·.diagnostic)).toFinset.card + r.droppedDiagnostics.length =
      (Selection.fixedIn (w.selection setup document).journal.events).length := by
  have hs := w.sound setup document
  have hperm := (PatchSet.apply_ok hc.apply).2
  have hnodup : (Selection.fixedIn (w.selection setup document).journal.events).Nodup := hs.starts.of_map
  -- a fixed finding has an edit in the merge, or all its edits were left out
  have hunion : (Selection.fixedIn (w.selection setup document).journal.events).toFinset =
      (r.applied.map (·.diagnostic)).toFinset ∪ r.droppedDiagnostics.toFinset := by
    ext d
    have hpatches : d ∈ (w.selection setup document).patches.patches.map (·.diagnostic) ↔
        d ∈ Selection.fixedIn (w.selection setup document).journal.events := hs.patches d
    rw [List.mem_toFinset, ← hpatches, ← (hperm.map _).mem_iff, List.map_append, List.mem_append, Finset.mem_union,
      List.mem_toFinset, List.mem_toFinset, PatchResult.mem_droppedDiagnostics_iff]
    tauto
  have hdisjoint : Disjoint (r.applied.map (·.diagnostic)).toFinset r.droppedDiagnostics.toFinset := by
    rw [Finset.disjoint_left]
    intro d ha hd
    exact ((PatchResult.mem_droppedDiagnostics_iff r d).1 (List.mem_toFinset.1 hd)).2 (List.mem_toFinset.1 ha)
  rw [← List.toFinset_card_of_nodup hnodup, hunion, Finset.card_union_of_disjoint hdisjoint,
    List.toFinset_card_of_nodup r.nodup_droppedDiagnostics]

/-- After the events of a file that came through, as many fixes stand as the merge kept. -/
theorem Clean.live_total (hc : Clean setup w events document r) :
    (FileTally.ofEvents w.path events).live.total = (r.applied.map (·.diagnostic)).toFinset.card := by
  obtain ⟨htotal, hof⟩ := FileTally.live_foldl
    (fun e he => ⟨(outcome_of_mem_selection e he).1, (outcome_of_mem_selection e he).2.1⟩)
    (FileTally.empty w.path)
  -- a dropped finding was reported as fixed before, so there is a fix to take back
  have hpos : ∀ d ∈ r.droppedDiagnostics,
      0 < ((w.selection setup document).journal.events.foldl FileTally.add (FileTally.empty w.path)).live.of d := by
    intro d hd
    have hpatch := ((mem_dropped_iff (PatchSet.apply_ok hc.apply).2 d).1 hd).1
    have hmem : d ∈ Selection.fixedIn (w.selection setup document).journal.events :=
      ((w.sound setup document).patches d).1 hpatch
    have hcount := List.count_pos_iff.2 hmem
    rw [hof]
    omega
  have hlost := FileTally.live_overlaps w.path "every edit overlaps an applied edit"
    r.nodup_droppedDiagnostics _ hpos
  have hcard := hc.card_fixed
  unfold FileTally.ofEvents
  rw [hc.events, List.foldl_append]
  unfold overlapEvents
  have hempty : (FileTally.empty w.path).live.total = 0 := rfl
  omega

theorem tallyOf_fixed {events : List Event} (h : ∀ e ∈ events, ∃ d, e.diagnostic = some d) :
    Selection.tallyOf .fixed events = (Selection.fixedIn events).length := by
  unfold Selection.tallyOf Selection.fixedIn
  induction events with
  | nil => rfl
  | cons e rest ih =>
    obtain ⟨d, hd⟩ := h e (List.mem_cons_self ..)
    have := ih fun e' he' => h e' (List.mem_cons_of_mem _ he')
    by_cases ho : e.outcome = .fixed
    · simp [ho, hd, this]
    · simp [ho, this]

theorem tallyOf_overlapEvents (o : Outcome) (path : String) (r : PatchResult) :
    Selection.tallyOf o (overlapEvents path r) = if o = .skippedOverlap then r.droppedDiagnostics.length else 0 := by
  unfold Selection.tallyOf
  split
  · rename_i ho
    rw [List.countP_eq_length.2 fun e he => by simp [ho, outcome_of_mem_overlapEvents e he]]
    exact List.length_map ..
  · rename_i ho
    exact List.countP_eq_zero.2 fun e he => by simpa [outcome_of_mem_overlapEvents e he] using Ne.symm ho

/-- The counts of a file that came through tell the truth. -/
theorem Clean.tells {calls : List WriterCall} {result : Except Failure FileResult}
    (h : Course setup w events calls result) (hc : Clean setup w events document r) :
    Tells setup w.findings document r (FileTally.ofEvents w.path events).summary.counts := by
  have hbalanced : (FileTally.ofEvents w.path events).summary.counts.of .fixed =
      (FileTally.ofEvents w.path events).live.total := balanced_ofEvents h
  have hfixed : (FileTally.ofEvents w.path events).summary.counts.of .fixed =
      (r.applied.map (·.diagnostic)).toFinset.card := by rw [hbalanced, hc.live_total]
  have hcount : ∀ o, o ≠ .fixed → (FileTally.ofEvents w.path events).summary.counts.of o =
      Selection.tallyOf o (w.selection setup document).journal.events +
        if o = .skippedOverlap then r.droppedDiagnostics.length else 0 := by
    intro o ho
    have hempty : (FileTally.empty w.path).summary.counts.of o = 0 := rfl
    unfold FileTally.ofEvents
    rw [FileTally.foldl_of ho, hempty, hc.events, Selection.tallyOf_append, tallyOf_overlapEvents]
    split <;> simp
  have hnone : Selection.tallyOf .skippedOverlap (w.selection setup document).journal.events = 0 :=
    List.countP_eq_zero.2 fun e he => by simpa using (outcome_of_mem_selection e he).2.1
  have hoverlap : (FileTally.ofEvents w.path events).summary.counts.of .skippedOverlap =
      r.droppedDiagnostics.length := by
    rw [hcount .skippedOverlap (by decide), hnone]
    simp
  refine ⟨hfixed, ?_, ?_⟩
  · rw [hoverlap, ← Work.selection_eq_chosen hc.ending, ← List.toFinset_card_of_nodup r.nodup_droppedDiagnostics]
    congr 2
    ext d
    rw [List.mem_toFinset, Finset.mem_filter, List.mem_toFinset, mem_dropped_iff (PatchSet.apply_ok hc.apply).2 d]
  · have htotal := (w.sound setup document).total hc.ending
    have htally : Selection.tallyOf .fixed (w.selection setup document).journal.events = _ :=
      tallyOf_fixed fun e he => (outcome_of_mem_selection e he).1
    have hcard := hc.card_fixed
    have hdup := hcount .skippedDuplicate (by decide)
    have hfix := hcount .noFix (by decide)
    rw [if_neg (by decide)] at hdup hfix
    change Selection.tallyOf .fixed (w.selection setup document).journal.events +
      Selection.tallyOf .skippedDuplicate (w.selection setup document).journal.events +
      Selection.tallyOf .noFix (w.selection setup document).journal.events = _ at htotal
    rw [hfixed, hoverlap, hdup, hfix]
    omega

end Counting

/-! ## Entries -/

/-- The entry of a file counts what its events add up to, unless an interruption took fixes back. -/
theorem Work.counts_of_entry {setup : Setup} {w : Work} {file : FileSummary} (h : w.entryOf setup = some file) :
    (∀ result, w.result setup = .ok result →
      file.counts = (FileTally.ofEvents w.path (w.journal setup).events).summary.counts ∧
      file.written = result.written) ∧
    (∀ failure, w.result setup = .error failure →
      file.counts = (FileTally.ofEvents w.path (w.journal setup).events).interrupt.summary.counts ∧
      file.written = false) := by
  unfold Work.entryOf at h
  constructor
  · intro result hr
    simp only [hr] at h
    exact Summary.of_entryOf h
  · intro failure hr
    simp only [hr] at h
    exact Summary.of_entryOf h

/-- Summaries tell the truth, whatever the oracle, the rules and the writer do and wherever the run
is cancelled. -/
theorem summary_truthful (setup : Setup) (schedule : List Turn) (ws : Workspace) (ds : List Diagnostic) {f : String}
    {file : FileSummary} (hf : (f, file) ∈ (overFindings setup schedule ws ds).1.files) :
    ((∀ e ∈ (overFindings setup schedule ws ds).2.1.events, e.path = some f → e.outcome ≠ .error) →
      f ∉ (filesRun setup schedule ws ds).interrupted.getD [] →
      ∃ document r, (overFindings setup schedule ws ds).2.2.loader.kept? f = some document ∧
        (chosen setup document (findingsOf f ds)).ending = .ok () ∧
        (chosen setup document (findingsOf f ds)).patches.apply document = .ok r ∧
        Tells setup (findingsOf f ds) document r file.counts) ∧
    ((∃ e ∈ (overFindings setup schedule ws ds).2.1.events, e.path = some f ∧ e.outcome = .error) ∨
      f ∈ (filesRun setup schedule ws ds).interrupted.getD [] →
      file.counts.get? .fixed = none ∧ file.written = false) := by
  obtain ⟨works, hx⟩ := explains_filesRun setup schedule ws ds
  rw [summary_overFindings, mem_files_summarize hx (path_of_mem_missingEvents ds)] at hf
  obtain ⟨w, hw, rfl, hentry⟩ := hf
  obtain ⟨hok, herr⟩ := w.counts_of_entry hentry
  have hfindings : w.findings = findingsOf w.path ds := ((Grouping.mem_groups_iff ds _ _).1 (hx.group w hw)).2
  have hstopped : w.path ∈ (filesRun setup schedule ws ds).interrupted.getD [] ↔
      ∃ failure, w.result setup = .error failure := by
    rw [hx.interrupted]
    constructor
    · rintro ⟨v, hv, hp, hfail⟩
      rwa [hx.eq_of_path hv hw hp] at hfail
    · exact fun hfail => ⟨w, hw, rfl, hfail⟩
  have hevents : ∀ e, e ∈ (overFindings setup schedule ws ds).2.1.events ∧ e.path = some w.path ↔
      e ∈ (w.journal setup).events := by
    intro e
    rw [events_overFindings, ← hx.events_work hw, List.mem_filter, List.mem_append]
    constructor
    · rintro ⟨hm | hm, hp⟩
      · rw [path_of_mem_missingEvents ds e hm] at hp; cases hp
      · exact ⟨hm, by simpa using hp⟩
    · rintro ⟨hm, hp⟩
      exact ⟨.inr hm, by simpa using hp⟩
  have hcourse := course setup w
  rw [workspace_overFindings]
  rcases hcourse.fate with ⟨document, r, result, hc, hr⟩ | ⟨before, detail, result, he, hr, hwr⟩ | ⟨failure, hr⟩
  · refine ⟨fun _ _ => ⟨document, r, ?_, ?_, ?_, ?_⟩, ?_⟩
    · exact (hx.kept w hw document).1 hc.loaded
    · rw [← hfindings, ← Work.selection_eq_chosen hc.ending]; exact hc.ending
    · rw [← hfindings, ← Work.selection_eq_chosen hc.ending]; exact hc.apply
    · rw [← hfindings, (hok result hr).1]
      exact hc.tells hcourse
    · rintro (⟨e, hm, hp, ho⟩ | hstop)
      · exact absurd ho (hc.no_error e ((hevents e).1 ⟨hm, hp⟩))
      · obtain ⟨failure, hfail⟩ := hstopped.1 hstop
        rw [hr] at hfail
        cases hfail
  -- the error is the last event, and takes back all the fixes before it
  · have hmem : errorEvent w.path detail ∈ (w.journal setup).events := by rw [he]; simp
    refine ⟨fun hno _ => ?_, fun _ => ?_⟩
    · obtain ⟨hm, hp⟩ := (hevents _).2 hmem
      exact absurd rfl (hno _ hm hp)
    · obtain ⟨hcounts, hwritten⟩ := hok result hr
      refine ⟨?_, hwritten.trans hwr⟩
      rw [hcounts, he]
      unfold FileTally.ofEvents
      rw [List.foldl_append]
      refine FileTally.no_fixed_of_error (FileTally.balanced_foldl (fun e hm => ?_) (FileTally.balanced_empty _)) rfl rfl
      exact hcourse.named_fixes e (by rw [he]; exact List.mem_append_left _ hm)
  · refine ⟨fun _ hno => absurd (hstopped.2 ⟨failure, hr⟩) hno, fun _ => ?_⟩
    obtain ⟨hcounts, hwritten⟩ := herr failure hr
    refine ⟨?_, hwritten⟩
    rw [hcounts]
    exact FileTally.no_fixed_of_interrupt (balanced_ofEvents hcourse)

theorem sample_truthful :
    (∃ file document r, ("a", file) ∈ (overFindings sampleSetup [] sampleWorkspace sampleFindings).1.files ∧
      Tells sampleSetup (findingsOf "a" sampleFindings) document r file.counts) ∧
    ∃ file, ("b", file) ∈ (overFindings sampleSetup [] sampleWorkspace sampleFindings).1.files ∧
      file.counts.get? .fixed = none ∧ file.written = false := by
  constructor
  · obtain ⟨file, hfile⟩ := Option.isSome_iff_exists.1 (by decide +kernel :
      ((overFindings sampleSetup [] sampleWorkspace sampleFindings).1.files.get? "a").isSome = true)
    obtain ⟨document, r, -, -, -, htells⟩ := (summary_truthful sampleSetup [] sampleWorkspace sampleFindings
      (Table.mem_of_get? hfile)).1 (by decide +kernel) (by decide +kernel)
    exact ⟨file, document, r, Table.mem_of_get? hfile, htells⟩
  · obtain ⟨file, hfile⟩ := Option.isSome_iff_exists.1 (by decide +kernel :
      ((overFindings sampleSetup [] sampleWorkspace sampleFindings).1.files.get? "b").isSome = true)
    exact ⟨file, Table.mem_of_get? hfile, (summary_truthful sampleSetup [] sampleWorkspace sampleFindings
      (Table.mem_of_get? hfile)).2 (.inl (by decide +kernel))⟩

end Amend.Run
