/-
The work on one file. What becomes of a file is said once, as the courses that its work can take:
it cannot be loaded, its selection breaks off or is interrupted, there is nothing to merge, an edit
does not fit, the merge changes nothing, the run is dry, or the writer is called and succeeds or
fails. Each course fixes the events of the file, the calls of the writer and the result.
-/
import Amend.Proofs.Files.Loader
import Amend.Proofs.Merge
import Amend.Proofs.Selection
import Amend.Run

namespace Amend.Run

/-- The work on a file as a run did it. -/
structure Work where
  path : String
  findings : List Diagnostic
  /-- How many queries had been put before. -/
  asked : Nat
  /-- What loading the file gave. -/
  loaded : Except LoadFault Document
  /-- The files as they stood when its new text was to be written. -/
  tree : FileTree
  named : ∀ document, loaded = .ok document → document.path = path

namespace Work

variable (setup : Setup) (w : Work)

/-- What happens up to the writing. -/
def plan : Plan :=
  planLoaded setup w.asked w.path w.findings w.loaded

/-- All that happens. -/
def journal : Journal :=
  (w.plan setup).journal ++ (perform setup w.tree w.path (w.plan setup).next).1

/-- What comes of it. -/
def result : Except Failure FileResult :=
  (perform setup w.tree w.path (w.plan setup).next).2.1

/-- The files that it leaves. -/
def after : FileTree :=
  (perform setup w.tree w.path (w.plan setup).next).2.2

/-- The fixes chosen for the file. -/
def selection (document : Document) : Selection :=
  Selection.select setup.oracle setup.options.rules setup.token w.asked document w.findings

end Work

/-- The event that something went wrong with a whole file. -/
def errorEvent (path detail : String) : Event :=
  ⟨some path, none, .error, detail⟩

/-- The events of the findings that lost all their edits. -/
def overlapEvents (path : String) (r : PatchResult) : List Event :=
  r.droppedDiagnostics.map fun d => ⟨some path, some d, .skippedOverlap, "every edit overlaps an applied edit"⟩

/-- The diff that is kept of a merge. -/
def keptDiff (options : RunOptions) (path : String) (r : PatchResult) : String :=
  if options.dryRun || options.collectDiffs then Diff.unified path r.before r.after else ""

/-- The merge of a file: its document was loaded, the selection ended well, and its edits fit. -/
structure Merges (setup : Setup) (w : Work) (document : Document) (r : PatchResult) : Prop where
  loaded : w.loaded = .ok document
  ending : (w.selection setup document).ending = .ok ()
  patches : (w.selection setup document).patches.patches ≠ []
  apply : (w.selection setup document).patches.apply document = .ok r

/-- The courses that the work on a file can take, with its events, the calls of the writer and the
result. -/
inductive Course (setup : Setup) (w : Work) : List Event → List WriterCall → Except Failure FileResult → Prop
  | unloaded (fault : LoadFault) (detail : String) (hl : w.loaded = .error fault) :
      Course setup w [errorEvent w.path detail] [] (.ok (untouched w.path))
  | broken (document : Document) (failure : Failure) (hl : w.loaded = .ok document)
      (he : (w.selection setup document).ending = .error failure) (hc : failure.isCancelled = false) :
      Course setup w ((w.selection setup document).journal.events ++ [errorEvent w.path failure.message]) []
        (.ok (untouched w.path))
  | interrupted (document : Document) (failure : Failure) (hl : w.loaded = .ok document)
      (he : (w.selection setup document).ending = .error failure) (hc : failure.isCancelled = true) :
      Course setup w (w.selection setup document).journal.events [] (.error failure)
  | idle (document : Document) (hl : w.loaded = .ok document)
      (he : (w.selection setup document).ending = .ok ())
      (hp : (w.selection setup document).patches.patches = []) :
      Course setup w (w.selection setup document).journal.events [] (.ok (untouched w.path))
  | misfit (document : Document) (e : InvalidSpan) (hl : w.loaded = .ok document)
      (he : (w.selection setup document).ending = .ok ())
      (hp : (w.selection setup document).patches.patches ≠ [])
      (ha : (w.selection setup document).patches.apply document = .error e) :
      Course setup w ((w.selection setup document).journal.events ++ [errorEvent w.path e.message]) []
        (.ok (untouched w.path))
  | unchanged (document : Document) (r : PatchResult) (hm : Merges setup w document r) (hc : r.changed = false) :
      Course setup w ((w.selection setup document).journal.events ++ overlapEvents w.path r) []
        (.ok (untouched w.path))
  | dry (document : Document) (r : PatchResult) (hm : Merges setup w document r) (hc : r.changed = true)
      (hd : setup.options.dryRun = true) :
      Course setup w ((w.selection setup document).journal.events ++ overlapEvents w.path r) []
        (.ok ⟨w.path, false, keptDiff setup.options w.path r⟩)
  | written (document : Document) (r : PatchResult) (hm : Merges setup w document r) (hc : r.changed = true)
      (hd : setup.options.dryRun = false) (hw : (setup.writer.write w.tree w.path r.after).result = .ok ()) :
      Course setup w ((w.selection setup document).journal.events ++ overlapEvents w.path r)
        [⟨w.path, r.after, .ok ()⟩] (.ok ⟨w.path, true, keptDiff setup.options w.path r⟩)
  | unwritten (document : Document) (r : PatchResult) (failure : Failure) (diff : String)
      (hm : Merges setup w document r) (hc : r.changed = true) (hd : setup.options.dryRun = false)
      (hw : (setup.writer.write w.tree w.path r.after).result = .error failure)
      (hf : failure.isCancelled = false) :
      Course setup w ((w.selection setup document).journal.events ++ overlapEvents w.path r ++
          [errorEvent w.path failure.message])
        [⟨w.path, r.after, .error failure⟩] (.ok ⟨w.path, false, diff⟩)
  | stopped (document : Document) (r : PatchResult) (failure : Failure) (hm : Merges setup w document r)
      (hc : r.changed = true) (hd : setup.options.dryRun = false)
      (hw : (setup.writer.write w.tree w.path r.after).result = .error failure)
      (hf : failure.isCancelled = true) :
      Course setup w ((w.selection setup document).journal.events ++ overlapEvents w.path r)
        [⟨w.path, r.after, .error failure⟩] (.error failure)

/-- The fixes that are chosen for the findings of a file if nobody stops the run. -/
def chosen (setup : Setup) (document : Document) (ds : List Diagnostic) : Selection :=
  Selection.select setup.oracle setup.options.rules Token.never 0 document ds

/-- A selection that ended well chose what is chosen if nobody stops the run. -/
theorem Work.selection_eq_chosen {setup : Setup} {w : Work} {document : Document}
    (he : (w.selection setup document).ending = .ok ()) :
    w.selection setup document = chosen setup document w.findings :=
  Selection.select_eq_never he

/-! ## Plans -/

section Plans

variable {setup : Setup} {w : Work} {document : Document}

/-- What is said before and while the fixes of a file are chosen. -/
def Work.opening (setup : Setup) (w : Work) (document : Document) : Journal :=
  .note .info .run s!"Processing code fixes for {w.path}" :: (w.selection setup document).journal

theorem events_opening (document : Document) :
    (w.opening setup document).events = (w.selection setup document).journal.events := rfl

theorem calls_opening (document : Document) : (w.opening setup document).calls = [] :=
  (Selection.sound_select setup.oracle setup.options.rules setup.token w.asked document w.findings).calls

theorem plan_error (setup : Setup) {fault : LoadFault} (hl : w.loaded = .error fault) :
    (fault.isUnreadable = true ∧ w.plan setup =
      ⟨[.note .warning .run s!"Cannot read {w.path}: {fault.message}",
        fileError w.path s!"unreadable: {fault.message}"], .finish (.ok (untouched w.path))⟩) ∨
    w.plan setup = ⟨[], .finish (.error fault.toFailure)⟩ := by
  unfold Work.plan planLoaded
  rw [hl]
  by_cases hu : fault.isUnreadable = true
  · exact .inl ⟨hu, if_pos hu⟩
  · exact .inr (if_neg hu)

theorem plan_ok (hl : w.loaded = .ok document) :
    w.plan setup = Run.plan setup w.asked w.path document w.findings := by
  unfold Work.plan planLoaded
  rw [hl]

theorem plan_failed {failure : Failure} (hl : w.loaded = .ok document)
    (he : (w.selection setup document).ending = .error failure) :
    w.plan setup = ⟨w.opening setup document, .finish (.error failure)⟩ := by
  rw [plan_ok hl]
  unfold Work.selection at he
  simp only [Run.plan, he]
  rfl

/-- The selection of a file that is skipped has no patches. -/
theorem patches_of_skippedFile (h : (w.selection setup document).skippedFile = true) :
    (w.selection setup document).patches.patches = [] := by
  unfold Work.selection Selection.select at h ⊢
  split
  · rfl
  · rename_i hk
    simp only [hk] at h
    split
    · rfl
    · rename_i hs
      rw [if_neg hs] at h
      cases h

theorem plan_idle (hl : w.loaded = .ok document) (he : (w.selection setup document).ending = .ok ())
    (hp : (w.selection setup document).patches.patches = []) :
    w.plan setup = ⟨w.opening setup document, .finish (.ok (untouched w.path))⟩ := by
  rw [plan_ok hl]
  unfold Work.selection at he hp
  simp only [Run.plan, he, hp, List.isEmpty_nil, Bool.or_true, if_true]
  rfl

theorem plan_patched (hl : w.loaded = .ok document) (he : (w.selection setup document).ending = .ok ())
    (hp : (w.selection setup document).patches.patches ≠ []) :
    w.plan setup = match (w.selection setup document).patches.apply document with
      | .error e => ⟨w.opening setup document ++ [.note .error .run s!"Aborting fixes for {w.path}: {e.message}",
          fileError w.path e.message], .finish (.ok (untouched w.path))⟩
      | .ok r => ⟨w.opening setup document ++ overlapNotes w.path r, planMerged setup.options w.path r⟩ := by
  have hs : ((w.selection setup document).skippedFile || (w.selection setup document).patches.patches.isEmpty) = false := by
    rw [Bool.or_eq_false_iff]
    refine ⟨?_, by simpa using hp⟩
    by_contra h
    exact hp (patches_of_skippedFile (by simpa using h))
  rw [plan_ok hl]
  unfold Work.selection at he hs
  simp only [Run.plan, he, hs]
  rfl

theorem plan_merged {r : PatchResult} (hm : Merges setup w document r) :
    w.plan setup = ⟨w.opening setup document ++ overlapNotes w.path r, planMerged setup.options w.path r⟩ := by
  rw [plan_patched hm.loaded hm.ending hm.patches, hm.apply]

end Plans

/-! ## Every work takes a course -/

theorem events_overlapNotes (path : String) (r : PatchResult) :
    Journal.events (overlapNotes path r) = overlapEvents path r := by
  simp [overlapNotes, overlapEvents, Journal.events, List.filterMap_map, Function.comp_def, Entry.event?]

theorem calls_overlapNotes (path : String) (r : PatchResult) : Journal.calls (overlapNotes path r) = [] := by
  simp [overlapNotes, Journal.calls, List.filterMap_map, Function.comp_def, Entry.call?]

/-- A failure that does not ask the run to stop becomes the error of its file. -/
theorem guarded_error {path : String} {journal : Journal} {failure : Failure} (hc : failure.isCancelled = false) :
    guarded path (journal, .error failure) = (journal ++ [.note .error .run s!"Unexpected failure while fixing {path}",
      fileError path failure.message], .ok (untouched path)) := by
  simp [guarded, hc]

theorem guarded_cancelled {path : String} {journal : Journal} {failure : Failure} (hc : failure.isCancelled = true) :
    guarded path (journal, .error failure) = (journal, .error failure) := by
  simp [guarded, hc]

/-- The text of a merge is written, or is not. -/
theorem perform_store (setup : Setup) (tree : FileTree) (path content diff : String) (applied skipped : Nat) :
    perform setup tree path (.store content diff applied skipped) =
      (Entry.write path content (setup.writer.write tree path content).result ::
          (setup.writer.write tree path content).notes.map LogLine.entry ++
          (guarded path (afterWrite path diff applied skipped (setup.writer.write tree path content).result)).1,
        (guarded path (afterWrite path diff applied skipped (setup.writer.write tree path content).result)).2,
        (setup.writer.write tree path content).tree) := rfl

theorem perform_unfinished (setup : Setup) (tree : FileTree) (path : String) {failure : Failure}
    (hc : failure.isCancelled = false) :
    perform setup tree path (.finish (.error failure)) = ([.note .error .run s!"Unexpected failure while fixing {path}",
      fileError path failure.message], .ok (untouched path), tree) := by
  simp only [perform, guarded_error hc, List.nil_append]

/-- A merge that went through changes nothing, or its text is shown or written. -/
theorem planMerged_eq (options : RunOptions) (path : String) (r : PatchResult) :
    planMerged options path r =
      if r.changed = false then .finish (.ok (untouched path))
      else if options.dryRun then .finish (.ok ⟨path, false, keptDiff options path r⟩)
      else .store r.after (keptDiff options path r) r.applied.length r.skipped.length := by
  unfold planMerged keptDiff
  cases r.changed <;> rfl

theorem course_written {setup : Setup} {w : Work} {document : Document} {r : PatchResult}
    (hm : Merges setup w document r) (hc : r.changed = true) (hd : setup.options.dryRun = false) :
    Course setup w (w.journal setup).events (w.journal setup).calls (w.result setup) := by
  have hp := plan_merged hm
  rw [planMerged_eq, if_neg (by rw [hc]; decide), if_neg (by rw [hd]; decide)] at hp
  unfold Work.journal Work.result
  rw [hp]
  simp only [perform_store]
  rcases hw : (setup.writer.write w.tree w.path r.after).result with failure | _
  · cases hf : failure.isCancelled with
    | true =>
      -- a cancellation is not an error of the file: the guard lets it through
      have hgu : guarded w.path (afterWrite w.path (keptDiff setup.options w.path r) r.applied.length
          r.skipped.length (.error failure)) = ([], .error failure) := by
        cases failure with
        | cancelled m => rfl
        | _ => cases hf
      rw [hgu]
      simpa [events_opening, calls_opening, events_overlapNotes, calls_overlapNotes, Journal.events_notes,
        Journal.calls_notes] using Course.stopped document r failure hm hc hd hw hf
    | false =>
      -- a failed write keeps its diff, and any other failure is left to the guard, which keeps none
      have hgu : ∃ note diff, guarded w.path (afterWrite w.path (keptDiff setup.options w.path r) r.applied.length
          r.skipped.length (.error failure)) = ([.note .error .run note, fileError w.path failure.message],
            .ok ⟨w.path, false, diff⟩) := by
        cases failure with
        | unwritten m => exact ⟨_, _, rfl⟩
        | cancelled m => cases hf
        | _ => exact ⟨_, _, rfl⟩
      obtain ⟨note, diff, hgu⟩ := hgu
      rw [hgu]
      simpa [events_opening, calls_opening, events_overlapNotes, calls_overlapNotes, Journal.events_notes,
        Journal.calls_notes, fileError, errorEvent] using Course.unwritten document r failure diff hm hc hd hw hf
  · simpa [events_opening, calls_opening, events_overlapNotes, calls_overlapNotes, Journal.events_notes,
      Journal.calls_notes, afterWrite, guarded] using Course.written document r hm hc hd hw

theorem course (setup : Setup) (w : Work) :
    Course setup w (w.journal setup).events (w.journal setup).calls (w.result setup) := by
  rcases hl : w.loaded with fault | document
  · unfold Work.journal Work.result
    rcases plan_error setup hl with ⟨-, hp⟩ | hp
    · rw [hp]; exact .unloaded fault _ hl
    · rw [hp, perform_unfinished setup w.tree w.path fault.isCancelled_toFailure]
      exact .unloaded fault _ hl
  rcases he : (w.selection setup document).ending with failure | _
  · unfold Work.journal Work.result
    rw [plan_failed hl he]
    cases hc : failure.isCancelled with
    | false =>
      rw [perform_unfinished setup w.tree w.path hc]
      simpa [events_opening, calls_opening, fileError, errorEvent] using
        Course.broken document failure hl he hc
    | true =>
      simpa [events_opening, calls_opening, perform, guarded_cancelled hc] using
        Course.interrupted document failure hl he hc
  by_cases hp : (w.selection setup document).patches.patches = []
  · unfold Work.journal Work.result
    rw [plan_idle hl he hp]
    simpa [events_opening, calls_opening, perform, guarded] using Course.idle document hl he hp
  rcases ha : (w.selection setup document).patches.apply document with e | r
  · unfold Work.journal Work.result
    rw [plan_patched hl he hp, ha]
    simpa [events_opening, calls_opening, perform, guarded, fileError, errorEvent] using
      Course.misfit document e hl he hp ha
  have hm : Merges setup w document r := ⟨hl, he, hp, ha⟩
  cases hc : r.changed with
  | false =>
    have hplan := plan_merged hm
    rw [planMerged_eq, if_pos hc] at hplan
    unfold Work.journal Work.result
    rw [hplan]
    simpa [events_opening, calls_opening, events_overlapNotes, calls_overlapNotes, perform, guarded] using
      Course.unchanged document r hm hc
  | true =>
    cases hd : setup.options.dryRun with
    | false => exact course_written hm hc hd
    | true =>
      have hplan := plan_merged hm
      rw [planMerged_eq, if_neg (by rw [hc]; decide), if_pos hd] at hplan
      unfold Work.journal Work.result
      rw [hplan]
      simpa [events_opening, calls_opening, events_overlapNotes, calls_overlapNotes, perform, guarded] using
        Course.dry document r hm hc hd

/-! ## What all courses have in common -/

section Common

variable {setup : Setup} {w : Work} {document : Document}

/-- The fixes of a file are chosen in keeping with the rules of selections. -/
theorem Work.sound (setup : Setup) (w : Work) (document : Document) :
    Selection.Sound document [] (w.findings.filter setup.options.rules.passes) (w.selection setup document).toWalk :=
  Selection.sound_select ..

theorem path_of_mem_selection (hl : w.loaded = .ok document) :
    ∀ e ∈ (w.selection setup document).journal.events, e.path = some w.path := by
  intro e he
  rw [((w.sound setup document).shape e he).1, w.named document hl]

theorem path_of_mem_overlapEvents {path : String} {r : PatchResult} :
    ∀ e ∈ overlapEvents path r, e.path = some path := by
  intro e he
  obtain ⟨d, -, rfl⟩ := List.mem_map.1 he
  rfl

variable {events : List Event} {calls : List WriterCall} {result : Except Failure FileResult}

theorem Course.path_of_event (h : Course setup w events calls result) : ∀ e ∈ events, e.path = some w.path := by
  intro e he
  cases h with
  | unloaded fault detail hl => rw [List.mem_singleton.1 he]; rfl
  | interrupted document failure hl => exact path_of_mem_selection hl e he
  | idle document hl => exact path_of_mem_selection hl e he
  | broken document failure hl | misfit document _ hl =>
    rcases List.mem_append.1 he with he | he
    · exact path_of_mem_selection hl e he
    · rw [List.mem_singleton.1 he]; rfl
  | unchanged document r hm | dry document r hm | written document r hm | stopped document r failure hm =>
    rcases List.mem_append.1 he with he | he
    · exact path_of_mem_selection hm.loaded e he
    · exact path_of_mem_overlapEvents e he
  | unwritten document r failure diff hm =>
    rcases List.mem_append.1 he with he | he
    · rcases List.mem_append.1 he with he | he
      · exact path_of_mem_selection hm.loaded e he
      · exact path_of_mem_overlapEvents e he
    · rw [List.mem_singleton.1 he]; rfl

theorem Course.path_of_call (h : Course setup w events calls result) : ∀ c ∈ calls, c.path = w.path := by
  intro c hc
  cases h with
  | written | unwritten | stopped => rw [List.mem_singleton.1 hc]
  | _ => cases hc

theorem Course.path_of_result (h : Course setup w events calls result) {r : FileResult} (hr : result = .ok r) :
    r.path = w.path := by
  cases h <;> cases hr <;> rfl

/-- Whatever its course, the work on a file has events and calls of this file only. -/
theorem Work.confined (setup : Setup) (w : Work) : Journal.Confined w.path (w.journal setup) :=
  ⟨(course setup w).path_of_event, (course setup w).path_of_call⟩

theorem calls_plan (setup : Setup) (w : Work) : (w.plan setup).journal.calls = [] := by
  rcases hl : w.loaded with fault | document
  · rcases plan_error setup hl with ⟨-, hp⟩ | hp <;> rw [hp] <;> rfl
  rcases he : (w.selection setup document).ending with failure | _
  · rw [plan_failed hl he]; exact calls_opening document
  by_cases hp : (w.selection setup document).patches.patches = []
  · rw [plan_idle hl he hp]; exact calls_opening document
  rw [plan_patched hl he hp]
  split
  · simp [calls_opening, fileError]
  · simp [calls_opening, calls_overlapNotes]

/-- A work leaves the files alone, or has a document and calls the writer for its file once. -/
theorem Work.write_cases (setup : Setup) (w : Work) :
    ((w.journal setup).calls = [] ∧ w.after setup = w.tree) ∨
    ∃ document content, w.loaded = .ok document ∧
      (w.journal setup).calls = [⟨w.path, content, (setup.writer.write w.tree w.path content).result⟩] ∧
      w.after setup = (setup.writer.write w.tree w.path content).tree := by
  have hguarded : ∀ (journal : Journal) (result : Except Failure FileResult), journal.calls = [] →
      (guarded w.path (journal, result)).1.calls = [] := by
    intro journal result hj
    unfold guarded
    split
    · split
      · simp_all
      · simp_all [fileError]
    · exact hj
  unfold Work.journal Work.after
  rw [Journal.calls_append, calls_plan, List.nil_append]
  rcases hnext : (w.plan setup).next with result | ⟨content, diff, applied, skipped⟩
  · exact .inl ⟨hguarded [] result rfl, rfl⟩
  · rcases hl : w.loaded with fault | document
    -- without a document there is nothing to write
    · rcases plan_error setup hl with ⟨-, hp⟩ | hp
      · rw [hp] at hnext; cases hnext
      · rw [hp] at hnext; cases hnext
    · refine .inr ⟨document, content, rfl, ?_, rfl⟩
      rw [perform_store]
      simp only [List.cons_append, Journal.calls_cons_write, Journal.calls_append, Journal.calls_notes, List.nil_append]
      rw [hguarded]
      unfold afterWrite
      split <;> simp [fileError]

end Common

/-! ## Runs that nothing cancels -/

/-- Nobody sets the token, and neither the rules nor the writer ask the run to stop. -/
structure Uncancelled (setup : Setup) : Prop where
  token : setup.token = Token.never
  rules : setup.options.rules.Uncancelled
  writer : ∀ tree path content failure, (setup.writer.write tree path content).result = .error failure →
    failure.isCancelled = false

section Uncancelled

variable {setup : Setup}

theorem Course.uncancelled (hu : Uncancelled setup) {w : Work} {events : List Event} {calls : List WriterCall}
    {result : Except Failure FileResult} (h : Course setup w events calls result) : ∃ r, result = .ok r := by
  cases h with
  | interrupted document failure hl he hc =>
    unfold Work.selection at he
    rw [hu.token] at he
    rw [Selection.ending_uncancelled hu.rules he] at hc
    cases hc
  | stopped document r failure hm hc hd hw hf =>
    rw [hu.writer _ _ _ _ hw] at hf
    cases hf
  | _ => exact ⟨_, rfl⟩

/-- Without a token the plan for a file is the same however many queries were put before. -/
theorem Work.plan_congr (ht : setup.token = Token.never) {w w' : Work} (hp : w.path = w'.path)
    (hf : w.findings = w'.findings) (hl : w.loaded = w'.loaded) : w.plan setup = w'.plan setup := by
  unfold Work.plan
  rw [hp, hf, hl]
  unfold planLoaded
  split
  · unfold Run.plan
    rw [ht, Selection.select_never_asked w.asked, Selection.select_never_asked w'.asked]
  · rfl

/-- Works that write with the same success have the same events, calls and result. -/
theorem Work.congr {w w' : Work} (hp : w.path = w'.path) (hplan : w.plan setup = w'.plan setup)
    (hw : ∀ content, (setup.writer.write w.tree w.path content).result =
      (setup.writer.write w'.tree w'.path content).result) :
    (w.journal setup).events = (w'.journal setup).events ∧ (w.journal setup).calls = (w'.journal setup).calls ∧
      w.result setup = w'.result setup := by
  unfold Work.journal Work.result
  rw [hplan]
  cases (w'.plan setup).next with
  | finish result => simp [perform, hp]
  | store content diff applied skipped =>
    simp only [perform_store, hw content]
    simp [hp, Journal.events_notes, Journal.calls_notes]

end Uncancelled

end Amend.Run
