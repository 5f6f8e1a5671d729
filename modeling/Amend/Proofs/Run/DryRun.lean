/-
A dry run foretells the run that writes. For each file the two plan the same up to the merge; where the
one would write a new text the other shows a diff, which is not empty since the text is new. So as long
as the writer does not fail and writing a file changes the text of no other, both have the same events,
counts and errors, and the files with a diff are the files that get written.
-/
import Amend.Proofs.Diff.Cover
import Amend.Proofs.Run.Workers
import Amend.Proofs.Run.Writes

namespace Amend.Run

/-- The same run, dry or not. -/
def Setup.withDryRun (setup : Setup) (dry : Bool) : Setup :=
  { setup with options := { setup.options with dryRun := dry } }

/-! ## One file -/

/-- What a dry run has left to do for a file, and what a run that writes has. -/
inductive Foretells (collect : Bool) (path : String) : Next → Next → Prop
  | finish (result : Except Failure FileResult) (hquiet : ∀ r, result = .ok r → r = untouched path) :
      Foretells collect path (.finish result) (.finish result)
  | store (content diff kept : String) (applied skipped : Nat) (hdiff : diff ≠ "")
      (hkept : collect = true → kept = diff) :
      Foretells collect path (.finish (.ok ⟨path, false, diff⟩)) (.store content kept applied skipped)

section Plans

variable (setup : Setup)

theorem foretells_planMerged (path : String) (r : PatchResult) :
    Foretells setup.options.collectDiffs path (planMerged (setup.withDryRun true).options path r)
      (planMerged (setup.withDryRun false).options path r) := by
  rw [planMerged_eq, planMerged_eq]
  by_cases hc : r.changed = false
  · rw [if_pos hc, if_pos hc]
    exact .finish _ fun r' h => by cases h; rfl
  · have hnew : r.before ≠ r.after := by
      simp only [PatchResult.changed, decide_eq_false_iff_not, not_not] at hc
      exact Ne.symm hc
    rw [if_neg hc, if_neg hc]
    refine .store _ _ _ _ _ (Diff.unified_ne_empty path hnew) fun hcollect => ?_
    unfold keptDiff Setup.withDryRun
    simp only [hcollect]
    rfl

/-- Dry or not, a file is planned with the same words, and the one plan foretells the other. -/
theorem Work.foretells (w : Work) :
    (w.plan (setup.withDryRun true)).journal = (w.plan (setup.withDryRun false)).journal ∧
    Foretells setup.options.collectDiffs w.path (w.plan (setup.withDryRun true)).next
      (w.plan (setup.withDryRun false)).next := by
  have hquiet : ∀ r, (.ok (untouched w.path) : Except Failure FileResult) = .ok r → r = untouched w.path := by
    rintro r ⟨⟩
    rfl
  have hfailed : ∀ (failure : Failure) (r : FileResult), (.error failure : Except Failure FileResult) = .ok r →
      r = untouched w.path := by
    rintro failure r ⟨⟩
  rcases hl : w.loaded with fault | document
  · have hsame : w.plan (setup.withDryRun true) = w.plan (setup.withDryRun false) := by
      unfold Work.plan planLoaded
      rw [hl]
    rw [hsame]
    rcases plan_error (setup.withDryRun false) hl with ⟨-, hp⟩ | hp
    · rw [hp]
      exact ⟨rfl, .finish _ hquiet⟩
    · rw [hp]
      exact ⟨rfl, .finish _ (hfailed _)⟩
  -- the fixes are chosen alike, for the choice does not know of the dry run
  have hselection : w.selection (setup.withDryRun true) document = w.selection (setup.withDryRun false) document := rfl
  have hopening : w.opening (setup.withDryRun true) document = w.opening (setup.withDryRun false) document := rfl
  rcases he : (w.selection (setup.withDryRun false) document).ending with failure | _
  · rw [plan_failed hl he, plan_failed hl (hselection ▸ he), hopening]
    exact ⟨rfl, .finish _ (hfailed failure)⟩
  by_cases hp : (w.selection (setup.withDryRun false) document).patches.patches = []
  · rw [plan_idle hl he hp, plan_idle hl (hselection ▸ he) (hselection ▸ hp), hopening]
    exact ⟨rfl, .finish _ hquiet⟩
  rw [plan_patched hl he hp, plan_patched hl (hselection ▸ he) (hselection ▸ hp), hopening, hselection]
  rcases (w.selection (setup.withDryRun false) document).patches.apply document with e | r
  · exact ⟨rfl, .finish _ hquiet⟩
  · exact ⟨rfl, foretells_planMerged setup w.path r⟩

end Plans

/-- What comes of a file in a dry run, and in one that writes it. -/
def Foretold (collect : Bool) (path : String) (dry real : Except Failure FileResult) : Prop :=
  dry = real ∧ (∀ r, real = .ok r → r = untouched path) ∨
  ∃ diff kept, diff ≠ "" ∧ (collect = true → kept = diff) ∧ dry = .ok ⟨path, false, diff⟩ ∧
    real = .ok ⟨path, true, kept⟩

section Works

variable {setup : Setup}

/-- If the writer does not fail, what is done for a file is what was foretold. -/
theorem Foretells.perform {collect : Bool} {path : String} {dry real : Next} (h : Foretells collect path dry real)
    (drySetup : Setup) (dryTree tree : FileTree)
    (hok : ∀ call ∈ Journal.calls (Run.perform setup tree path real).1, call.result = .ok ()) :
    Journal.events (Run.perform drySetup dryTree path dry).1 = Journal.events (Run.perform setup tree path real).1 ∧
    Journal.calls (Run.perform drySetup dryTree path dry).1 = [] ∧
    Foretold collect path (Run.perform drySetup dryTree path dry).2.1 (Run.perform setup tree path real).2.1 := by
  cases h with
  | finish result hquiet =>
    have hperform : ∀ (setup : Setup) (tree : FileTree), Run.perform setup tree path (.finish result) =
        ((guarded path ([], result)).1, (guarded path ([], result)).2, tree) := fun _ _ => rfl
    rw [hperform, hperform]
    rcases result with failure | r
    · by_cases hc : failure.isCancelled = true
      · rw [guarded_cancelled hc]
        exact ⟨rfl, rfl, .inl ⟨rfl, by rintro r ⟨⟩⟩⟩
      · rw [guarded_error (Bool.eq_false_iff.2 hc)]
        refine ⟨rfl, rfl, .inl ⟨rfl, ?_⟩⟩
        rintro r ⟨⟩
        rfl
    · exact ⟨rfl, rfl, .inl ⟨rfl, hquiet⟩⟩
  | store content diff kept applied skipped hdiff hkept =>
    have hwrite : (setup.writer.write tree path content).result = .ok () :=
      hok ⟨path, content, (setup.writer.write tree path content).result⟩ (by simp [perform_store])
    simp only [hwrite, afterWrite, guarded, Run.perform]
    refine ⟨?_, rfl, .inr ⟨diff, kept, hdiff, hkept, rfl, rfl⟩⟩
    simp [Journal.events_notes]

/-- The work on a file in a dry run and in one that writes. -/
theorem Work.foretold (ht : setup.token = Token.never) {v w : Work} (hp : v.path = w.path)
    (hf : v.findings = w.findings) (hl : v.loaded = w.loaded)
    (hok : ∀ call ∈ (w.journal (setup.withDryRun false)).calls, call.result = .ok ()) :
    (v.journal (setup.withDryRun true)).events = (w.journal (setup.withDryRun false)).events ∧
    (v.journal (setup.withDryRun true)).calls = [] ∧
    Foretold setup.options.collectDiffs w.path (v.result (setup.withDryRun true)) (w.result (setup.withDryRun false)) := by
  have hplan : v.plan (setup.withDryRun true) = w.plan (setup.withDryRun true) := by
    have htoken : (setup.withDryRun true).token = Token.never := ht
    exact Work.plan_congr htoken hp hf hl
  obtain ⟨hjournal, hnext⟩ := w.foretells setup
  unfold Work.journal at hok ⊢
  unfold Work.result
  rw [Journal.calls_append, calls_plan, List.nil_append] at hok
  obtain ⟨hevents, hcalls, hresult⟩ := hnext.perform (setup.withDryRun true) v.tree w.tree hok
  rw [Journal.events_append, Journal.events_append, Journal.calls_append, calls_plan, hplan, hp, hjournal, hevents, hcalls]
  exact ⟨rfl, rfl, hresult⟩

/-- The entry of a file in a dry run has the same counts and errors, and it has a diff if the file is
written otherwise. -/
theorem Work.entry_foretold {v w : Work} {collect : Bool} (hp : v.path = w.path)
    (hevents : (v.journal (setup.withDryRun true)).events = (w.journal (setup.withDryRun false)).events)
    (hresult : Foretold collect w.path (v.result (setup.withDryRun true)) (w.result (setup.withDryRun false))) :
    (v.entryOf (setup.withDryRun true)).map (fun file => (file.counts, file.errors)) =
      (w.entryOf (setup.withDryRun false)).map (fun file => (file.counts, file.errors)) ∧
    ((∃ file, v.entryOf (setup.withDryRun true) = some file ∧ file.diff ≠ "") ↔
      ∃ file, w.entryOf (setup.withDryRun false) = some file ∧ file.written = true) ∧
    (collect = true → (v.entryOf (setup.withDryRun true)).map (·.diff) =
      (w.entryOf (setup.withDryRun false)).map (·.diff)) := by
  unfold Work.entryOf
  rw [hevents, hp]
  rcases hresult with ⟨hsame, hquiet⟩ | ⟨diff, kept, hdiff, hkept, hdry, hreal⟩
  · rw [hsame]
    refine ⟨rfl, ?_, fun _ => rfl⟩
    rcases hr : w.result (setup.withDryRun false) with failure | r
    · simp [Summary.entryOf]
    · simp [Summary.entryOf, hquiet r hr, untouched]
  · rw [hdry, hreal]
    simp only [Summary.entryOf, hdiff, if_false]
    refine ⟨by simp, by simp [hdiff], fun hcollect => ?_⟩
    simp [hkept hcollect, hdiff]

end Works

/-! ## Events in the order of the files -/

/-- Events that come file by file. -/
def InOrder (paths : List String) (events : List Event) : Prop :=
  events = paths.flatMap fun path => events.filter (·.path = some path)

theorem inOrder_nil (paths : List String) : InOrder paths [] := by
  unfold InOrder
  induction paths with
  | nil => rfl
  | cons path rest ih => exact ih

theorem inOrder_append {path : String} {paths : List String} {mine others : List Event} (hp : path ∉ paths)
    (hmine : ∀ e ∈ mine, e.path = some path) (hothers : InOrder paths others) :
    InOrder (path :: paths) (mine ++ others) := by
  have hnot : ∀ e ∈ others, e.path ≠ some path := by
    intro e he hpath
    rw [hothers] at he
    obtain ⟨other, hmem, hfilter⟩ := List.mem_flatMap.1 he
    have hother : e.path = some other := of_decide_eq_true (List.mem_filter.1 hfilter).2
    rw [hpath] at hother
    cases hother
    exact hp hmem
  have hfirst : (mine ++ others).filter (·.path = some path) = mine := by
    rw [List.filter_append, List.filter_eq_self.2 fun e he => decide_eq_true (hmine e he),
      List.filter_eq_nil_iff.2 fun e he => by simpa using hnot e he, List.append_nil]
  have hrest : (paths.flatMap fun other => (mine ++ others).filter (·.path = some other)) =
      paths.flatMap fun other => others.filter (·.path = some other) := by
    refine List.flatMap_congr fun other hother => ?_
    rw [List.filter_append, List.filter_eq_nil_iff.2, List.nil_append]
    intro e he
    rw [hmine e he]
    simp only [Option.some.injEq, decide_eq_true_eq]
    rintro rfl
    exact hp hother
  unfold InOrder
  rw [List.flatMap_cons, hfirst, hrest, ← hothers]

/-- Files that are taken one after the other have their events so. -/
theorem inOrder_sequential (setup : Setup) (groups : Table String (List Diagnostic)) :
    ∀ (ws : Workspace) (asked : Nat), groups.keys.Nodup →
      InOrder groups.keys (sequential setup ws asked groups).journal.events := by
  induction groups with
  | nil => exact fun _ _ _ => rfl
  | cons row rest ih =>
    obtain ⟨path, ds⟩ := row
    intro ws asked hn
    obtain ⟨hp, hn⟩ : path ∉ Table.keys rest ∧ (Table.keys rest).Nodup := List.nodup_cons.1 hn
    have hmine := ((Work.inOneGo ws asked path ds).confined setup).events
    unfold sequential
    split
    · exact inOrder_nil _
    rw [processFile_eq]
    rcases (Work.inOneGo ws asked path ds).result setup with failure | r
    · have hlast := inOrder_append hp hmine (inOrder_nil (Table.keys rest))
      rwa [List.append_nil] at hlast
    · simp only [Journal.events_append]
      exact inOrder_append hp hmine (ih _ _ hn)

theorem perm_of_filter_path {events others : List Event}
    (h : ∀ path, events.filter (·.path = path) = others.filter (·.path = path)) : events.Perm others := by
  rw [List.perm_iff_count]
  intro e
  have hcount : ∀ xs : List Event, (xs.filter (·.path = e.path)).count e = xs.count e :=
    fun xs => List.count_filter (decide_eq_true rfl)
  rw [← hcount events, ← hcount others, h]

/-! ## Whole runs -/

/-- The entry of a file, put together from what a run knows of it. -/
def FilesRun.entry (files : FilesRun) (path : String) : Option FileSummary :=
  Summary.entryOf path (files.journal.events.filter (·.path = some path))
    ((files.interrupted.getD []).contains path) (files.written.contains path) (Table.get? files.diffs path)

section Runs

variable {setup : Setup} {ws : Workspace} {groups : Table String (List Diagnostic)} {works works' : List Work}
  {files files' : FilesRun}

/-- Every file of a run is worked on dry as it is otherwise. -/
theorem Explains.foretold (hu : Uncancelled setup) (hs : Steady setup.writer ws groups.keys)
    (hx : Explains (setup.withDryRun true) ws groups works files)
    (hx' : Explains (setup.withDryRun false) ws groups works' files')
    (hok : ∀ call ∈ files'.journal.calls, call.result = .ok ()) {path : String} (hkey : path ∈ groups.keys) :
    files.journal.events.filter (·.path = some path) = files'.journal.events.filter (·.path = some path) ∧
    files.journal.calls.filter (·.path = path) = [] ∧
    (files.entry path).map (fun file => (file.counts, file.errors)) =
      (files'.entry path).map (fun file => (file.counts, file.errors)) ∧
    ((∃ file, files.entry path = some file ∧ file.diff ≠ "") ↔
      ∃ file, files'.entry path = some file ∧ file.written = true) ∧
    (setup.options.collectDiffs = true → (files.entry path).map (·.diff) = (files'.entry path).map (·.diff)) := by
  have hu' : ∀ dry, Uncancelled (setup.withDryRun dry) := fun dry => ⟨hu.token, hu.rules, hu.writer⟩
  obtain ⟨⟨path, ds⟩, hrow, rfl⟩ := List.mem_map.1 hkey
  obtain ⟨v, hv, hve⟩ := (hx.all (hu' true)).2 _ hrow
  obtain ⟨w, hw, hwe⟩ := (hx'.all (hu' false)).2 _ hrow
  obtain ⟨hvp, hvf⟩ := Prod.mk.inj hve
  obtain ⟨rfl, rfl⟩ := Prod.mk.inj hwe
  have hloaded : v.loaded = w.loaded := by
    rw [(hx.steady hs hv).1, (hx'.steady hs hw).1, hvp]
  have hcalls : ∀ call ∈ (w.journal (setup.withDryRun false)).calls, call.result = .ok () := by
    intro call hcall
    rw [← hx'.calls_work hw] at hcall
    exact hok call (List.mem_filter.1 hcall).1
  obtain ⟨hevents, hnone, hresult⟩ := Work.foretold hu.token hvp hvf hloaded hcalls
  have hentry : files.entry w.path = v.entryOf (setup.withDryRun true) := by
    rw [← hvp]
    exact hx.entry_work hv
  have hentry' : files'.entry w.path = w.entryOf (setup.withDryRun false) := hx'.entry_work hw
  rw [hentry, hentry']
  refine ⟨?_, ?_, Work.entry_foretold hvp hevents hresult⟩
  · rw [hx'.events_work hw, ← hevents, ← hvp, hx.events_work hv]
  · rw [← hnone, ← hx.calls_work hv, hvp]

/-- The files of a summary are those that have an entry. -/
theorem files_overFindings {schedule : List Turn} {ds : List Diagnostic}
    (hx : Explains setup ws (Grouping.ofDiagnostics ds).groups works (filesRun setup schedule ws ds)) :
    (overFindings setup schedule ws ds).1.files = (Grouping.ofDiagnostics ds).groups.keys.filterMap fun path =>
      ((filesRun setup schedule ws ds).entry path).map (path, ·) := by
  rw [summary_overFindings]
  exact files_summarize hx (path_of_mem_missingEvents ds)

theorem mem_rows {paths : List String} {entry : String → Option FileSummary} {path : String} {file : FileSummary} :
    (path, file) ∈ (paths.filterMap fun p => (entry p).map (p, ·)) ↔ path ∈ paths ∧ entry path = some file := by
  rw [List.mem_filterMap]
  constructor
  · rintro ⟨p, hp, he⟩
    obtain ⟨found, hfound, hpair⟩ := Option.map_eq_some_iff.1 he
    obtain ⟨rfl, rfl⟩ := Prod.mk.inj hpair
    exact ⟨hp, hfound⟩
  · rintro ⟨hp, he⟩
    exact ⟨path, hp, by rw [he]; rfl⟩

/-- Summaries whose entries agree in some respect agree in it as a whole. -/
theorem map_rows {β : Type} {paths : List String} {entry other : String → Option FileSummary} (g : FileSummary → β)
    (h : ∀ path ∈ paths, (entry path).map g = (other path).map g) :
    (paths.filterMap fun p => (entry p).map (p, ·)).map (fun row => (row.1, g row.2)) =
      (paths.filterMap fun p => (other p).map (p, ·)).map (fun row => (row.1, g row.2)) := by
  rw [List.map_filterMap, List.map_filterMap]
  refine List.filterMap_congr fun path hp => ?_
  have hboth := congrArg (Option.map fun value => (path, value)) (h path hp)
  simpa only [Option.map_map, Function.comp_def] using hboth

/-- Whatever file one looks at, and also for none, the events are the same. -/
theorem Explains.events_foretold (hu : Uncancelled setup) (hs : Steady setup.writer ws groups.keys)
    (hx : Explains (setup.withDryRun true) ws groups works files)
    (hx' : Explains (setup.withDryRun false) ws groups works' files')
    (hok : ∀ call ∈ files'.journal.calls, call.result = .ok ()) (path : Option String) :
    files.journal.events.filter (·.path = path) = files'.journal.events.filter (·.path = path) := by
  rcases path with _ | path
  · have hloose : ∀ e ∈ files.journal.events, ¬ decide (e.path = none) = true := fun e he => by simpa using hx.loose e he
    have hloose' : ∀ e ∈ files'.journal.events, ¬ decide (e.path = none) = true := fun e he => by simpa using hx'.loose e he
    rw [List.filter_eq_nil_iff.2 hloose, List.filter_eq_nil_iff.2 hloose']
  · by_cases hkey : path ∈ groups.keys
    · exact (hx.foretold hu hs hx' hok hkey).1
    · have hnone : ∀ {works : List Work}, (∀ w ∈ works, (w.path, w.findings) ∈ groups) →
          ∀ w ∈ works, w.path ≠ path := by
        rintro works hgroup w hw rfl
        exact hkey (List.mem_map_of_mem (hgroup w hw))
      rw [← Journal.events_about, ← Journal.events_about, hx.about_none (hnone hx.group), hx'.about_none (hnone hx'.group)]

end Runs

/-- A dry run foretells the run that writes. If nothing cancels the runs, the writer does not fail and
writing a file changes the text of no other, then both have the same events, those of each file in
the same order and all of them if no workers share the files; the same files with the same counts
and errors; and the same events without a file. The dry run never calls the writer, and it shows a
diff for just the files that the other one writes: the same diff, if that one keeps diffs. -/
theorem dry_run_foretells {setup : Setup} {ws : Workspace} {ds : List Diagnostic} (hu : Uncancelled setup)
    (hs : Steady setup.writer ws (Grouping.ofDiagnostics ds).groups.keys) (schedule schedule' : List Turn)
    {dry real : Summary × Journal × Workspace} (hdry : overFindings (setup.withDryRun true) schedule ws ds = dry)
    (hreal : overFindings (setup.withDryRun false) schedule' ws ds = real)
    (hok : ∀ call ∈ real.2.1.calls, call.result = .ok ()) :
    dry.2.1.events.Perm real.2.1.events ∧
    (∀ path, dry.2.1.events.filter (·.path = path) = real.2.1.events.filter (·.path = path)) ∧
    (isPooled setup.options setup.oracle (Grouping.ofDiagnostics ds).groups.length = false →
      dry.2.1.events = real.2.1.events) ∧
    dry.1.files.map (fun row => (row.1, row.2.counts, row.2.errors)) =
      real.1.files.map (fun row => (row.1, row.2.counts, row.2.errors)) ∧
    dry.1.unresolved = real.1.unresolved ∧
    dry.2.1.calls = [] ∧
    (∀ path, (∃ file, (path, file) ∈ dry.1.files ∧ file.diff ≠ "") ↔ path ∈ real.1.writtenPaths) ∧
    (setup.options.collectDiffs = true → dry.1.files.map (fun row => (row.1, row.2.diff)) =
      real.1.files.map (fun row => (row.1, row.2.diff))) := by
  subst hdry hreal
  obtain ⟨works, hx⟩ := explains_filesRun (setup.withDryRun true) schedule ws ds
  obtain ⟨works', hx'⟩ := explains_filesRun (setup.withDryRun false) schedule' ws ds
  have hmissing := path_of_mem_missingEvents ds
  rw [calls_overFindings] at hok
  have hfile := fun {path : String} (hkey : path ∈ (Grouping.ofDiagnostics ds).groups.keys) =>
    hx.foretold hu hs hx' hok hkey
  have hpath := hx.events_foretold hu hs hx' hok
  have hfilter : ∀ path, (overFindings (setup.withDryRun true) schedule ws ds).2.1.events.filter (·.path = path) =
      (overFindings (setup.withDryRun false) schedule' ws ds).2.1.events.filter (·.path = path) := by
    intro path
    rw [events_overFindings, events_overFindings, List.filter_append, List.filter_append, hpath]
  refine ⟨perm_of_filter_path hfilter, hfilter, fun hpooled => ?_, ?_, ?_, ?_, fun path => ?_, fun hcollect => ?_⟩
  · rw [events_overFindings, events_overFindings]
    have horder : ∀ (dry : Bool) (schedule : List Turn), InOrder (Grouping.ofDiagnostics ds).groups.keys
        (filesRun (setup.withDryRun dry) schedule ws ds).journal.events := by
      intro dry schedule
      unfold filesRun
      rw [if_neg (by rw [Bool.not_eq_true]; exact hpooled)]
      exact inOrder_sequential _ _ ws 0 (Grouping.nodup_groups ds)
    rw [horder true schedule, horder false schedule']
    exact congrArg _ (List.flatMap_congr fun path _ => hpath (some path))
  · rw [files_overFindings hx, files_overFindings hx']
    exact map_rows (fun file => (file.counts, file.errors)) fun path hkey => (hfile hkey).2.2.1
  · rw [summary_overFindings, summary_overFindings, unresolved_summarize hx hmissing, unresolved_summarize hx' hmissing]
  · rw [calls_overFindings]
    refine List.eq_nil_iff_forall_not_mem.2 fun call hcall => ?_
    exact List.filter_eq_nil_iff.1 (hfile (hx.key_of_call hcall)).2.1 call hcall (decide_eq_true rfl)
  · have hwritten : path ∈ (overFindings (setup.withDryRun false) schedule' ws ds).1.writtenPaths ↔
        ∃ file, (path, file) ∈ (overFindings (setup.withDryRun false) schedule' ws ds).1.files ∧ file.written = true := by
      simp [Summary.writtenPaths]
    rw [hwritten, files_overFindings hx, files_overFindings hx']
    simp only [mem_rows]
    by_cases hkey : path ∈ (Grouping.ofDiagnostics ds).groups.keys
    · simp only [hkey, true_and]
      exact (hfile hkey).2.2.2.1
    · simp [hkey]
  · rw [files_overFindings hx, files_overFindings hx']
    exact map_rows (·.diff) fun path hkey => (hfile hkey).2.2.2.2 hcollect

theorem sample_steady :
    Steady sampleSetup.writer sampleWorkspace (Grouping.ofDiagnostics pairOfFindings).groups.keys := by
  have hkeys : (Grouping.ofDiagnostics pairOfFindings).groups.keys =
      (Grouping.ofDiagnostics sampleFindings).groups.keys := by decide
  rw [hkeys]
  exact sample_apart.fetch

theorem sample_dry_run_foretells :
    (overFindings (sampleSetup.withDryRun true) [] sampleWorkspace pairOfFindings).2.1.calls = [] ∧
    (overFindings (sampleSetup.withDryRun true) [] sampleWorkspace pairOfFindings).2.1.events =
      (overFindings (sampleSetup.withDryRun false) [] sampleWorkspace pairOfFindings).2.1.events ∧
    "a" ∈ (overFindings (sampleSetup.withDryRun false) [] sampleWorkspace pairOfFindings).1.writtenPaths ∧
    ∃ file, ("a", file) ∈ (overFindings (sampleSetup.withDryRun true) [] sampleWorkspace pairOfFindings).1.files ∧
      file.diff ≠ "" := by
  have hwritten : "a" ∈ (overFindings (sampleSetup.withDryRun false) [] sampleWorkspace pairOfFindings).1.writtenPaths := by
    decide +kernel
  have hok : ∀ call ∈ (overFindings (sampleSetup.withDryRun false) [] sampleWorkspace pairOfFindings).2.1.calls,
      call.result = .ok () := by
    decide +kernel
  obtain ⟨-, -, hevents, -, -, hcalls, hdiffs, -⟩ := dry_run_foretells sample_uncancelled sample_steady [] [] rfl rfl hok
  exact ⟨hcalls, hevents (by decide), hwritten, (hdiffs "a").2 hwritten⟩

/-! ### A file with two paths -/

/-- The run over two paths of one file, which empties the file under the first and changes its second
character under the other. -/
def twoPathsSetup : Setup :=
  { sampleSetup with
    oracle := ⟨fun d _ => .ok [⟨"fix", "", [.replace d.start d.length d.message], none⟩], true⟩ }

def twoPathsFindings : List Diagnostic :=
  [⟨"E1", some "a", 0, 2, ""⟩, ⟨"E2", some "./a", 1, 1, "x"⟩]

/-- The dry run shows two fixes and two diffs. The other run, whose writer does not fail either, comes
to the second path when the file is empty already, and the fix no longer fits. -/
theorem dry_run_misses_shared_file :
    Uncancelled twoPathsSetup ∧
    (∀ call ∈ (overFindings (twoPathsSetup.withDryRun false) [] sampleWorkspace twoPathsFindings).2.1.calls,
      call.result = .ok ()) ∧
    (overFindings (twoPathsSetup.withDryRun true) [] sampleWorkspace twoPathsFindings).2.1.events.map (·.outcome) =
      [.fixed, .fixed] ∧
    (overFindings (twoPathsSetup.withDryRun false) [] sampleWorkspace twoPathsFindings).2.1.events.map (·.outcome) =
      [.fixed, .fixed, .error] ∧
    ((overFindings (twoPathsSetup.withDryRun true) [] sampleWorkspace twoPathsFindings).1.files.filter
      (·.2.diff ≠ "")).map (·.1) = ["a", "./a"] ∧
    (overFindings (twoPathsSetup.withDryRun false) [] sampleWorkspace twoPathsFindings).1.writtenPaths = ["a"] :=
  ⟨⟨sample_uncancelled.token, sample_uncancelled.rules, sample_uncancelled.writer⟩, by decide +kernel⟩

end Amend.Run
