/-
Errors are reported once and never end a run. Whatever the oracle, the rules and the writer do short
of cancelling, a run gives a summary. It has one error for each finding without a file, in order, and
one for each file that something went wrong with: the file could not be loaded, a rule failed, an
edit did not fit, or the writer failed. The summary has errors, and the command that makes fixes
exits with code 1, exactly if there is one of these.
-/
import Amend.CommandLine.Session
import Amend.Proofs.Run.Truth
import Amend.Proofs.Selection.Judge
import Amend.Proofs.Summary.Totals

namespace Amend.Run

/-- Something goes wrong with a file that has these findings. `kept` is the document that was loaded
of it, if it could be loaded, and `calls` are the calls of the writer for it. -/
inductive Fails (setup : Setup) (fs : List Diagnostic) (kept : Option Document) (calls : List WriterCall) : Prop
  | unloaded (hk : kept = none)
  | broken (document : Document) (hk : kept = some document)
      (hb : Selection.Breaks setup.oracle setup.options.rules document fs)
  | misfit (document : Document) (hk : kept = some document) (patch : Patch)
      (hp : patch ∈ (chosen setup document fs).patches.patches) (hf : patch.edit.span.fits document.size = false)
  | unwritten (call : WriterCall) (hc : call ∈ calls) (failure : Failure) (hf : call.result = .error failure)

/-! ## Errors of a file -/

section Files

variable {setup : Setup} {w : Work} {events : List Event} {calls : List WriterCall}
  {result : Except Failure FileResult} {document : Document}

theorem selection_of_uncancelled (hu : Uncancelled setup) (w : Work) (document : Document) :
    w.selection setup document = chosen setup document w.findings := by
  unfold Work.selection chosen
  rw [hu.token]
  exact Selection.select_never_asked w.asked w.findings

/-- A file that is loaded, chosen for and merged well fails exactly if the writer does. -/
theorem fails_iff_of_merged (hl : w.loaded = .ok document)
    (he : (chosen setup document w.findings).ending = .ok ())
    (hfit : ∃ r, (chosen setup document w.findings).patches.apply document = .ok r) :
    Fails setup w.findings w.loaded.toOption calls ↔ ∃ call ∈ calls, ∃ failure, call.result = .error failure := by
  rw [hl]
  constructor
  · intro h
    cases h with
    | unloaded hk => cases hk
    | broken _ hk hb =>
      cases hk
      obtain ⟨failure, hf⟩ := (Selection.select_error_iff ..).2 hb
      unfold chosen at he
      rw [hf] at he
      cases he
    | misfit _ hk patch hp hf =>
      cases hk
      rw [(PatchSet.apply_ok_iff _ document).1 hfit patch hp] at hf
      cases hf
    | unwritten call hc failure hf => exact ⟨call, hc, failure, hf⟩
  · rintro ⟨call, hc, failure, hf⟩
    exact .unwritten call hc failure hf

theorem tallyOf_error_selection (setup : Setup) (w : Work) (document : Document) :
    Selection.tallyOf .error (w.selection setup document).journal.events = 0 :=
  List.countP_eq_zero.2 fun e he => by simpa using (outcome_of_mem_selection e he).2.2

theorem tallyOf_errorEvent (path detail : String) : Selection.tallyOf .error [errorEvent path detail] = 1 := rfl

/-- A file has one error if something goes wrong with it, and none if not. -/
theorem Course.errors (hu : Uncancelled setup) (h : Course setup w events calls result) :
    Selection.tallyOf .error events ≤ 1 ∧
      (Selection.tallyOf .error events = 1 ↔ Fails setup w.findings w.loaded.toOption calls) := by
  have hsame := selection_of_uncancelled hu w
  have hselection := tallyOf_error_selection setup w
  have hoverlap : ∀ r, Selection.tallyOf .error (overlapEvents w.path r) = 0 := fun r => by
    rw [tallyOf_overlapEvents, if_neg (by decide)]
  obtain ⟨final, hfinal⟩ := h.uncancelled hu
  cases h with
  | unloaded fault detail hl =>
    rw [tallyOf_errorEvent, hl]
    exact ⟨le_refl 1, fun _ => .unloaded rfl, fun _ => rfl⟩
  | broken document failure hl he hc =>
    rw [Selection.tallyOf_append, hselection, tallyOf_errorEvent, hl]
    rw [hsame] at he
    exact ⟨le_refl 1, fun _ => .broken document rfl ((Selection.select_error_iff ..).1 ⟨failure, he⟩), fun _ => rfl⟩
  | interrupted => cases hfinal
  | stopped => cases hfinal
  | misfit document e hl he hp ha =>
    rw [Selection.tallyOf_append, hselection, tallyOf_errorEvent]
    rw [hsame] at ha
    have hmisfit : ∃ patch ∈ (chosen setup document w.findings).patches.patches,
        patch.edit.span.fits document.size = false := by
      by_contra hall
      obtain ⟨r, hr⟩ := (PatchSet.apply_ok_iff (chosen setup document w.findings).patches document).2
        fun patch hpatch => by_contra fun hf => hall ⟨patch, hpatch, by simpa using hf⟩
      rw [ha] at hr
      cases hr
    obtain ⟨patch, hpatch, hf⟩ := hmisfit
    exact ⟨le_refl 1, fun _ => .misfit document (by rw [hl]; rfl) patch hpatch hf, fun _ => rfl⟩
  | idle document hl he hp =>
    rw [hsame] at he hp
    have hfit : ∃ r, (chosen setup document w.findings).patches.apply document = .ok r :=
      (PatchSet.apply_ok_iff _ document).2 (by simp [hp])
    rw [hselection, fails_iff_of_merged hl he hfit]
    simp
  | unchanged document r hm | dry document r hm | written document r hm =>
    have he := hm.ending
    have ha := hm.apply
    rw [hsame] at he ha
    rw [Selection.tallyOf_append, hselection, hoverlap, fails_iff_of_merged hm.loaded he ⟨r, ha⟩]
    simp
  | unwritten document r failure diff hm hc hd hw hf =>
    rw [Selection.tallyOf_append, Selection.tallyOf_append, hselection, hoverlap, tallyOf_errorEvent]
    exact ⟨le_refl 1, fun _ => .unwritten _ (List.mem_singleton_self _) failure rfl, fun _ => rfl⟩

end Files

/-! ## Errors of a run -/

/-- How many errors of a file events report. -/
def errorsOf (path : String) (events : List Event) : Nat :=
  Selection.tallyOf .error (events.filter (·.path = some path))

section Runs

variable {setup : Setup} (schedule : List Turn) (ws : Workspace) (ds : List Diagnostic)

theorem errorsOf_overFindings (setup : Setup) (path : String) :
    errorsOf path (overFindings setup schedule ws ds).2.1.events =
      errorsOf path (filesRun setup schedule ws ds).journal.events := by
  have hmissing : (missingEvents ds).filter (·.path = some path) = [] :=
    List.filter_eq_nil_iff.2 fun e he => by simp [path_of_mem_missingEvents ds e he]
  unfold errorsOf
  rw [events_overFindings, List.filter_append, hmissing, List.nil_append]

/-- A run has one error of a file that something goes wrong with, and none of any other. -/
theorem errorsOf_iff (hu : Uncancelled setup) (path : String) :
    errorsOf path (overFindings setup schedule ws ds).2.1.events ≤ 1 ∧
      (errorsOf path (overFindings setup schedule ws ds).2.1.events = 1 ↔ findingsOf path ds ≠ [] ∧
        Fails setup (findingsOf path ds) ((overFindings setup schedule ws ds).2.2.loader.kept? path)
          ((overFindings setup schedule ws ds).2.1.calls.filter (·.path = path))) := by
  obtain ⟨works, hx⟩ := explains_filesRun setup schedule ws ds
  rw [errorsOf_overFindings, workspace_overFindings, calls_overFindings]
  by_cases hnamed : findingsOf path ds = []
  · have hnone : ∀ w ∈ works, w.path ≠ path := by
      rintro w hw rfl
      exact ((Grouping.mem_groups_iff ds _ _).1 (hx.group w hw)).1 hnamed
    have hzero : errorsOf path (filesRun setup schedule ws ds).journal.events = 0 := by
      unfold errorsOf
      rw [← Journal.events_about, hx.about_none hnone]
      rfl
    simp [hzero, hnamed]
  · obtain ⟨w, hw, hrow⟩ := (hx.all hu).2 _ ((Grouping.mem_groups_iff ds path _).2 ⟨hnamed, rfl⟩)
    obtain ⟨rfl, hfindings⟩ := Prod.mk.inj hrow
    have hkept : (filesRun setup schedule ws ds).workspace.loader.kept? w.path = w.loaded.toOption := by
      rcases hl : w.loaded with fault | document
      · refine Option.eq_none_iff_forall_ne_some.2 fun document hk => ?_
        rw [← hx.kept w hw, hl] at hk
        cases hk
      · exact (hx.kept w hw document).1 hl
    obtain ⟨hone, hiff⟩ := (course setup w).errors hu
    unfold errorsOf
    rw [hx.events_work hw, hx.calls_work hw, hkept, ← hfindings]
    exact ⟨hone, hiff.trans ⟨fun h => ⟨by rwa [hfindings], h⟩, fun h => h.2⟩⟩

/-- An entry counts an error exactly if the work on its file has one. -/
theorem Work.entry_errors {w : Work} {file : FileSummary} (h : w.entryOf setup = some file) :
    file.counts.Positive ∧ (0 < file.counts.of .error ↔ ∃ e ∈ (w.journal setup).events, e.outcome = .error) := by
  unfold Work.entryOf at h
  split at h
  · exact Summary.counts_entryOf h
  · exact Summary.counts_entryOf h

theorem Work.entry_of_event {w : Work} {e : Event} (he : e ∈ (w.journal setup).events) :
    ∃ file, w.entryOf setup = some file := by
  have hne : (w.journal setup).events ≠ [] := List.ne_nil_of_mem he
  unfold Work.entryOf Summary.entryOf
  split
  · exact ⟨_, if_neg fun h => hne h.1⟩
  · exact ⟨_, if_neg fun h => hne h.1⟩

/-- A summary has errors exactly if an event of its run is one. -/
theorem hasErrors_overFindings (setup : Setup) :
    (overFindings setup schedule ws ds).1.hasErrors = true ↔
      ∃ e ∈ (overFindings setup schedule ws ds).2.1.events, e.outcome = .error := by
  obtain ⟨works, hx⟩ := explains_filesRun setup schedule ws ds
  have hmissing := path_of_mem_missingEvents ds
  have hfiles := mem_files_summarize hx hmissing
  have hcounted : (∃ row ∈ (summarize (Grouping.ofDiagnostics ds).groups.keys
        (missingEvents ds ++ (filesRun setup schedule ws ds).journal.events) (filesRun setup schedule ws ds)).files,
        0 < row.2.counts.of .error) ↔
      ∃ e ∈ (filesRun setup schedule ws ds).journal.events, e.outcome = .error := by
    constructor
    · rintro ⟨⟨path, file⟩, hrow, hpos⟩
      obtain ⟨w, hw, -, hentry⟩ := (hfiles path file).1 hrow
      obtain ⟨e, he, ho⟩ := (Work.entry_errors hentry).2.1 hpos
      rw [← hx.events_work hw] at he
      exact ⟨e, (List.mem_filter.1 he).1, ho⟩
    · rintro ⟨e, he, ho⟩
      obtain ⟨w, hw, -, he⟩ := hx.work_of_event he
      obtain ⟨file, hentry⟩ := Work.entry_of_event he
      exact ⟨(w.path, file), (hfiles w.path file).2 ⟨w, hw, rfl, hentry⟩, (Work.entry_errors hentry).2.2 ⟨e, he, ho⟩⟩
  rw [summary_overFindings, events_overFindings, Summary.hasErrors_iff, hcounted, unresolved_summarize hx hmissing]
  · simp only [List.mem_append, or_and_right, exists_or]
    exact or_comm
  · rintro ⟨path, file⟩ hrow
    obtain ⟨w, -, -, hentry⟩ := (hfiles path file).1 hrow
    exact (Work.entry_errors hentry).1

/-- Something goes wrong in a run: a finding has no file, or one of the files fails. -/
def GoesWrong (setup : Setup) (schedule : List Turn) (ws : Workspace) (ds : List Diagnostic) : Prop :=
  (∃ d ∈ ds, d.file? = none) ∨ ∃ path, findingsOf path ds ≠ [] ∧
    Fails setup (findingsOf path ds) ((overFindings setup schedule ws ds).2.2.loader.kept? path)
      ((overFindings setup schedule ws ds).2.1.calls.filter (·.path = path))

theorem hasErrors_iff_goesWrong (hu : Uncancelled setup) :
    (overFindings setup schedule ws ds).1.hasErrors = true ↔ GoesWrong setup schedule ws ds := by
  rw [hasErrors_overFindings]
  constructor
  · rintro ⟨e, he, ho⟩
    rcases hp : e.path with _ | path
    · left
      obtain ⟨works, hx⟩ := explains_filesRun setup schedule ws ds
      rw [events_overFindings, List.mem_append, missingEvents_eq] at he
      rcases he with he | he
      · obtain ⟨d, hd, -⟩ := List.mem_map.1 he
        obtain ⟨hmem, hnone⟩ := List.mem_filter.1 hd
        exact ⟨d, hmem, of_decide_eq_true hnone⟩
      · exact absurd hp (hx.loose e he)
    · right
      obtain ⟨hone, hiff⟩ := errorsOf_iff schedule ws ds hu path
      have hpos : 0 < errorsOf path (overFindings setup schedule ws ds).2.1.events :=
        List.countP_pos_iff.2 ⟨e, List.mem_filter.2 ⟨he, by simpa using hp⟩, by simpa using ho⟩
      exact ⟨path, hiff.1 (by omega)⟩
  · rintro (⟨d, hd, hnone⟩ | ⟨path, hfails⟩)
    · refine ⟨⟨none, some d, .error, MissingFile.message ⟨d⟩⟩, ?_, rfl⟩
      rw [events_overFindings, missingEvents_eq]
      exact List.mem_append_left _ (List.mem_map.2 ⟨d, List.mem_filter.2 ⟨hd, by simpa using hnone⟩, rfl⟩)
    · have hone := (errorsOf_iff schedule ws ds hu path).2.2 hfails
      obtain ⟨e, he, ho⟩ := List.countP_pos_iff.1 (show 0 < errorsOf path (overFindings setup schedule ws ds).2.1.events by omega)
      exact ⟨e, (List.mem_filter.1 he).1, of_decide_eq_true ho⟩

end Runs

end Amend.Run

/-! ## The command -/

namespace Amend.CommandLine

/-- The command that makes fixes comes to a run over these findings, set up in this way. -/
def Fixes (world : Surroundings) (request : FixRequest) (setup : Run.Setup) (ws : Workspace) (ds : List Diagnostic) :
    Prop :=
  ∃ config folder response, Config.load world.tree (some (FilePath.ofString request.config)) = .ok config ∧
    projectFolder config world.tree = .ok folder ∧
    response = (Report.Backend.new { config.analyzer.settings with
        riskyFixes := config.analyzer.settings.riskyFixes || request.riskyFixes }).analyze world.launcher folder
      (if request.paths.isEmpty then config.analyzer.paths else request.paths)
      ⟨world.tree, (Loader.new (some folder) config.project.encoding).withCodecs world.codecs⟩ ∧
    response.findings = .ok ds ∧ ws = response.workspace ∧
    setup = ⟨response.backend.oracle, runOptions config request, Token.never, Run.defaultWriter ws.loader⟩

theorem uncancelled_filter (codes names : List String) : (Filter.rules codes names).Uncancelled := by
  refine ⟨fun keep hkeep d failure hf => ?_, fun accept haccept c failure hf => ?_, fun rework h => by cases h⟩
  · simp only [Filter.rules, Filter.byCodes] at hkeep
    split at hkeep
    · cases hkeep
    · cases hkeep; cases hf
  · simp only [Filter.rules, Filter.byNames] at haccept
    split at haccept
    · cases haccept
    · cases haccept; cases hf

variable {world : Surroundings} {request : FixRequest} {setup : Run.Setup} {ws : Workspace} {ds : List Diagnostic}

/-- The run of the command is one that nothing cancels. -/
theorem Fixes.uncancelled (h : Fixes world request setup ws ds) : Run.Uncancelled setup := by
  obtain ⟨config, folder, response, -, -, -, -, -, rfl⟩ := h
  exact ⟨rfl, uncancelled_filter _ _, Run.uncancelled_toFiles ws.loader.codecs ws.loader.resolve "utf-8"⟩

theorem Fixes.code (h : Fixes world request setup ws ds) :
    (fix world request).code = if (Run.overFindings setup [] ws ds).1.hasErrors then 1 else 0 := by
  obtain ⟨config, folder, response, hconfig, hfolder, hresponse, hfindings, rfl, rfl⟩ := h
  unfold fix withConfig withAnalysis
  simp only [hconfig, hfolder, ← hresponse]
  simp only [Run.complete, Report.Backend.Response.toAnalysis, hfindings]

end Amend.CommandLine

namespace Amend.Run

/-- Errors are reported once and never end a run. -/
theorem errors_reported_once {ε : Type} :
    (∀ (setup : Setup) (schedule : List Turn) (ws : Workspace) (ds : List Diagnostic), Uncancelled setup →
      (complete setup.options setup.token setup.writer schedule (Analysis.given (ε := ε) ws setup.oracle ds)).summary =
        .ok (overFindings setup schedule ws ds).1 ∧
      (overFindings setup schedule ws ds).1.unresolved =
        (ds.filter (·.file? = none)).map (fun d => ⟨none, some d, .error, MissingFile.message ⟨d⟩⟩) ∧
      (∀ path, errorsOf path (overFindings setup schedule ws ds).2.1.events ≤ 1 ∧
        (errorsOf path (overFindings setup schedule ws ds).2.1.events = 1 ↔ findingsOf path ds ≠ [] ∧
          Fails setup (findingsOf path ds) ((overFindings setup schedule ws ds).2.2.loader.kept? path)
            ((overFindings setup schedule ws ds).2.1.calls.filter (·.path = path)))) ∧
      ((overFindings setup schedule ws ds).1.hasErrors = true ↔ GoesWrong setup schedule ws ds)) ∧
    ∀ (world : CommandLine.Surroundings) (request : CommandLine.FixRequest) (setup : Setup) (ws : Workspace)
      (ds : List Diagnostic), CommandLine.Fixes world request setup ws ds →
      ((CommandLine.fix world request).code = 1 ↔ GoesWrong setup [] ws ds) := by
  refine ⟨fun setup schedule ws ds hu => ⟨rfl, ?_, errorsOf_iff schedule ws ds hu,
    hasErrors_iff_goesWrong schedule ws ds hu⟩, fun world request setup ws ds h => ?_⟩
  · rw [unresolved_overFindings, missingEvents_eq]
  · rw [h.code, ← hasErrors_iff_goesWrong [] ws ds h.uncancelled]
    cases (overFindings setup [] ws ds).1.hasErrors <;> simp

/-! ### A command whose analyzer names no file -/

/-- A folder without a configuration, where the analyzer reports a message without a file. -/
def sampleWorld : CommandLine.Surroundings where
  tree := sampleWorkspace.tree
  launcher := .given ⟨"[\x7b\"location\":\x7b\"row\":1,\"column\":1\x7d,\"end_location\":\x7b\"row\":1,\"column\":1\x7d\x7d]",
    0, ""⟩
  time := ""
  codecs := Codecs.plain

def sampleRequest : CommandLine.FixRequest :=
  ⟨Config.fileName, [], [], [], false, none, false, false⟩

/-- What the analysis for the command gives. -/
def sampleResponse : Report.Backend.Response :=
  (Report.Backend.new Report.Settings.default).analyze sampleWorld.launcher ⟨1, []⟩ []
    ⟨sampleWorld.tree, Loader.new (some ⟨1, []⟩) "utf-8"⟩

theorem sample_fixes : CommandLine.Fixes sampleWorld sampleRequest
    ⟨sampleResponse.backend.oracle, CommandLine.runOptions Config.default sampleRequest, Token.never,
      defaultWriter sampleResponse.workspace.loader⟩
    sampleResponse.workspace [⟨"syntax-error", none, 0, 0, ""⟩] := by
  have hfolder : CommandLine.projectFolder Config.default sampleWorld.tree = .ok ⟨1, []⟩ := by decide +kernel
  have hfindings : sampleResponse.findings = .ok [⟨"syntax-error", none, 0, 0, ""⟩] := by decide +kernel
  exact ⟨Config.default, ⟨1, []⟩, sampleResponse, rfl, hfolder, rfl, hfindings, rfl, rfl⟩

theorem sample_errors_reported_once :
    errorsOf "b" (overFindings sampleSetup [] sampleWorkspace sampleFindings).2.1.events = 1 ∧
      (overFindings sampleSetup [] sampleWorkspace sampleFindings).1.hasErrors = true ∧
      (CommandLine.fix sampleWorld sampleRequest).code = 1 := by
  obtain ⟨hrun, hcommand⟩ := errors_reported_once (ε := Empty)
  obtain ⟨-, -, hpath, herrors⟩ := hrun sampleSetup [] sampleWorkspace sampleFindings sample_uncancelled
  -- the fix of the finding in `b` lies outside of its text
  have hfails : findingsOf "b" sampleFindings ≠ [] ∧ Fails sampleSetup (findingsOf "b" sampleFindings)
      ((overFindings sampleSetup [] sampleWorkspace sampleFindings).2.2.loader.kept? "b")
      ((overFindings sampleSetup [] sampleWorkspace sampleFindings).2.1.calls.filter (·.path = "b")) :=
    ⟨by decide +kernel, .misfit ⟨"b", "34"⟩ (by decide +kernel) ⟨⟨"E3", some "b", 7, 1, ""⟩, .replace 7 1 "x"⟩
      (by decide +kernel) (by decide +kernel)⟩
  exact ⟨(hpath "b").2.2 hfails, herrors.2 (.inr ⟨"b", hfails⟩),
    (hcommand _ _ _ _ _ sample_fixes).2 (.inl ⟨_, List.mem_singleton_self _, rfl⟩)⟩

end Amend.Run
