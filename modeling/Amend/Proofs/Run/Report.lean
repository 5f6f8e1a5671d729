/-
The summary of a run, read off its account: a file is in the summary with the entry of the work on
it, in the order of the groups, and events without a file are those of findings that name none.
-/
import Amend.Run.Complete
import Amend.Proofs.Group
import Amend.Proofs.Run.Pool
import Amend.Proofs.Summary.Entry

namespace Amend.Run

/-- The entry that the work on a file leads to. -/
def Work.entryOf (setup : Setup) (w : Work) : Option FileSummary :=
  match w.result setup with
  | .ok r => Summary.entryOf w.path (w.journal setup).events false r.written (if r.diff = "" then none else some r.diff)
  | .error _ => Summary.entryOf w.path (w.journal setup).events true false none

/-- A file is marked as written if the work on it ended so. -/
theorem Work.written_iff (setup : Setup) (w : Work) :
    (∃ file, w.entryOf setup = some file ∧ file.written = true) ↔ ∃ r, w.result setup = .ok r ∧ r.written = true := by
  unfold Work.entryOf
  cases hr : w.result setup with
  | ok r =>
    constructor
    · rintro ⟨file, hfile, hw⟩
      exact ⟨r, rfl, (Summary.of_entryOf hfile).2.symm.trans hw⟩
    · rintro ⟨_, ⟨⟩, hw⟩
      refine ⟨_, if_neg fun hnone => ?_, hw⟩
      rw [hw] at hnone
      cases hnone.2.1
  | error failure =>
    constructor
    · rintro ⟨file, hfile, hw⟩
      rw [(Summary.of_entryOf hfile).2] at hw
      cases hw
    · rintro ⟨r, ⟨⟩, -⟩

/-! ## What a run knows of a file -/

section Files

variable {setup : Setup} {ws : Workspace} {groups : Table String (List Diagnostic)} {works : List Work}
  {files : FilesRun}

/-- The files that a run reports as written. -/
def FilesRun.written (files : FilesRun) : List String :=
  (files.results.filter (·.written)).map (·.path)

/-- The diffs that a run keeps. -/
def FilesRun.diffs (files : FilesRun) : List (String × String) :=
  (files.results.filter (·.diff ≠ "")).map fun r => (r.path, r.diff)

theorem Explains.eq_of_path (hx : Explains setup ws groups works files) {v w : Work} (hv : v ∈ works) (hw : w ∈ works)
    (h : v.path = w.path) : v = w :=
  List.inj_on_of_nodup_map hx.nodup hv hw h

theorem Explains.events_work (hx : Explains setup ws groups works files) {w : Work} (hw : w ∈ works) :
    files.journal.events.filter (·.path = some w.path) = (w.journal setup).events := by
  rw [← Journal.events_about, hx.about_work hw, Journal.events_about]
  exact List.filter_eq_self.2 fun e he => by simpa using (w.confined setup).events e he

/-- Each event comes from the work on a file. -/
theorem Explains.work_of_event (hx : Explains setup ws groups works files) {e : Event}
    (he : e ∈ files.journal.events) : ∃ w ∈ works, e.path = some w.path ∧ e ∈ (w.journal setup).events := by
  obtain ⟨path, hpath⟩ := Option.ne_none_iff_exists'.1 (hx.loose e he)
  have hmem : e ∈ files.journal.events.filter (·.path = some path) :=
    List.mem_filter.2 ⟨he, by simpa using hpath⟩
  by_cases hw : ∃ w ∈ works, w.path = path
  · obtain ⟨w, hw, rfl⟩ := hw
    exact ⟨w, hw, hpath, by rwa [hx.events_work hw] at hmem⟩
  · rw [← Journal.events_about, hx.about_none fun w hm hp => hw ⟨w, hm, hp⟩] at hmem
    cases hmem

theorem Explains.calls_work (hx : Explains setup ws groups works files) {w : Work} (hw : w ∈ works) :
    files.journal.calls.filter (·.path = w.path) = (w.journal setup).calls := by
  rw [← Journal.calls_about, hx.about_work hw, Journal.calls_about]
  exact List.filter_eq_self.2 fun c hc => by simpa using (w.confined setup).calls c hc

/-- The result of a file is that of the work on it. -/
theorem Explains.mem_results (hx : Explains setup ws groups works files) {w : Work} (hw : w ∈ works) (r : FileResult) :
    r ∈ files.results ∧ r.path = w.path ↔ w.result setup = .ok r := by
  rw [hx.results]
  constructor
  · rintro ⟨⟨v, hv, hr⟩, hp⟩
    obtain rfl := hx.eq_of_path hv hw (((course setup v).path_of_result hr).symm.trans hp)
    exact hr
  · intro hr
    exact ⟨⟨w, hw, hr⟩, (course setup w).path_of_result hr⟩

theorem Explains.mem_written (hx : Explains setup ws groups works files) {w : Work} (hw : w ∈ works) :
    w.path ∈ files.written ↔ ∃ r, w.result setup = .ok r ∧ r.written = true := by
  simp only [FilesRun.written, List.mem_map, List.mem_filter]
  constructor
  · rintro ⟨r, ⟨hr, hwr⟩, hp⟩
    exact ⟨r, (hx.mem_results hw r).1 ⟨hr, hp⟩, hwr⟩
  · rintro ⟨r, hr, hwr⟩
    obtain ⟨hmem, hp⟩ := (hx.mem_results hw r).2 hr
    exact ⟨r, ⟨hmem, hwr⟩, hp⟩

theorem Explains.nodup_diffs (hx : Explains setup ws groups works files) : (files.diffs.map (·.1)).Nodup := by
  unfold FilesRun.diffs
  rw [List.map_map]
  exact (List.filter_sublist.map _).nodup hx.nodupResults

theorem Explains.get?_diffs (hx : Explains setup ws groups works files) {w : Work} (hw : w ∈ works) {r : FileResult}
    (hr : w.result setup = .ok r) : Table.get? files.diffs w.path = if r.diff = "" then none else some r.diff := by
  obtain ⟨hmem, hp⟩ := (hx.mem_results hw r).2 hr
  split
  · rename_i hdiff
    refine (Table.get?_eq_none_iff _ _).2 fun hkey => ?_
    simp only [FilesRun.diffs, Table.keys, List.mem_map, List.mem_filter] at hkey
    obtain ⟨_, ⟨r', ⟨hr', hne⟩, rfl⟩, hp'⟩ := hkey
    have hsame := (hx.mem_results hw r').1 ⟨hr', hp'⟩
    rw [hr] at hsame
    cases hsame
    exact of_decide_eq_true hne hdiff
  · rename_i hdiff
    refine Table.get?_of_mem hx.nodup_diffs (List.mem_map.2 ⟨r, List.mem_filter.2 ⟨hmem, by simpa using hdiff⟩, ?_⟩)
    rw [hp]

/-- A file that the run did not get a result for has no diff. -/
theorem Explains.get?_diffs_none {path : String} (h : ∀ r ∈ files.results, r.path ≠ path) :
    Table.get? files.diffs path = none := by
  refine (Table.get?_eq_none_iff _ _).2 fun hkey => ?_
  simp only [FilesRun.diffs, Table.keys, List.mem_map, List.mem_filter] at hkey
  obtain ⟨_, ⟨r, ⟨hr, -⟩, rfl⟩, hp⟩ := hkey
  exact h r hr hp

/-- What concerns a file that the run turned to makes up the entry of its work. -/
theorem Explains.entry_work (hx : Explains setup ws groups works files) {w : Work} (hw : w ∈ works) :
    Summary.entryOf w.path (files.journal.events.filter (·.path = some w.path))
      ((files.interrupted.getD []).contains w.path) (files.written.contains w.path) (Table.get? files.diffs w.path) =
    w.entryOf setup := by
  rw [hx.events_work hw]
  have hwritten := hx.mem_written hw
  have hstopped := hx.interrupted w.path
  unfold Work.entryOf
  cases hr : w.result setup with
  | ok r =>
    -- a file has one work, so one with a result was not interrupted
    have hno : w.path ∉ files.interrupted.getD [] := by
      rw [hstopped]
      rintro ⟨v, hv, hp, failure, hf⟩
      obtain rfl := hx.eq_of_path hv hw hp
      rw [hr] at hf
      cases hf
    have hmark : files.written.contains w.path = r.written := by
      rw [Bool.eq_iff_iff, List.contains_iff_mem, hwritten]
      simp [hr]
    have hstop : (files.interrupted.getD []).contains w.path = false := by simpa using hno
    rw [hx.get?_diffs hw hr, hmark, hstop]
  | error failure =>
    have hnone : ∀ r ∈ files.results, r.path ≠ w.path := by
      intro r hmem hp
      have hok := (hx.mem_results hw r).1 ⟨hmem, hp⟩
      rw [hr] at hok
      cases hok
    have hstop : (files.interrupted.getD []).contains w.path = true := by
      rw [List.contains_iff_mem, hstopped]
      exact ⟨w, hw, rfl, failure, hr⟩
    have hmark : files.written.contains w.path = false := by
      rw [Bool.eq_false_iff]
      intro hc
      rw [List.contains_iff_mem, hwritten] at hc
      simp [hr] at hc
    rw [Explains.get?_diffs_none hnone, hmark, hstop]

/-- Nothing concerns a file that the run did not turn to. -/
theorem Explains.entry_none (hx : Explains setup ws groups works files) {path : String}
    (hp : ∀ w ∈ works, w.path ≠ path) :
    Summary.entryOf path (files.journal.events.filter (·.path = some path))
      ((files.interrupted.getD []).contains path) (files.written.contains path) (Table.get? files.diffs path) =
    none := by
  have hnone : ∀ r ∈ files.results, r.path ≠ path := by
    intro r hr he
    obtain ⟨w, hw, hres⟩ := (hx.results r).1 hr
    exact hp w hw (((course setup w).path_of_result hres).symm.trans he)
  have hmark : files.written.contains path = false := by
    rw [Bool.eq_false_iff]
    intro hc
    obtain ⟨r, hr, he⟩ := List.mem_map.1 (List.contains_iff_mem.1 hc)
    exact hnone r (List.mem_filter.1 hr).1 he
  rw [← Journal.events_about, hx.about_none hp, hmark, Explains.get?_diffs_none hnone]
  rfl

end Files

/-! ## Summaries -/

section Summaries

variable {setup : Setup} {ws : Workspace} {groups : Table String (List Diagnostic)} {works : List Work}
  {files : FilesRun} {preface : List Event}

theorem get?_summary (hx : Explains setup ws groups works files) (hpre : ∀ e ∈ preface, e.path = none)
    (path : String) :
    (Summary.ofEvents (preface ++ files.journal.events) files.written (Table.ofPairs files.diffs)
      files.interrupted.isSome (files.interrupted.getD [])).files.get? path =
    Summary.entryOf path (files.journal.events.filter (·.path = some path))
      ((files.interrupted.getD []).contains path) (files.written.contains path) (Table.get? files.diffs path) := by
  have hfilter : preface.filter (·.path = some path) = [] :=
    List.filter_eq_nil_iff.2 fun e he => by simp [hpre e he]
  rw [Summary.get?_ofEvents hx.nodupInterrupted (Table.nodup_ofPairs _), List.filter_append, hfilter, List.nil_append,
    Table.get?_ofPairs hx.nodup_diffs]

/-- The files of a summary are those of the groups that have an entry, in the order of the groups. -/
theorem files_summarize (hx : Explains setup ws groups works files) (hpre : ∀ e ∈ preface, e.path = none) :
    (summarize groups.keys (preface ++ files.journal.events) files).files =
      groups.keys.filterMap fun path => (Summary.entryOf path (files.journal.events.filter (·.path = some path))
        ((files.interrupted.getD []).contains path) (files.written.contains path)
        (Table.get? files.diffs path)).map (path, ·) := by
  have hreorder := Summary.reorder_files
    (Summary.ofEvents (preface ++ files.journal.events) files.written (Table.ofPairs files.diffs)
      files.interrupted.isSome (files.interrupted.getD [])) groups.keys ?_
  · simp only [get?_summary hx hpre] at hreorder
    exact hreorder
  · intro path hkey
    obtain ⟨entry, hentry⟩ := (Table.mem_keys_iff _ _).1 hkey
    rw [get?_summary hx hpre] at hentry
    by_contra hno
    have hnone : ∀ w ∈ works, w.path ≠ path := by
      rintro w hw rfl
      exact hno (List.mem_map_of_mem (hx.group w hw))
    rw [hx.entry_none hnone] at hentry
    cases hentry

/-- A file is in the summary exactly if there is an entry for the work on it. -/
theorem mem_files_summarize (hx : Explains setup ws groups works files) (hpre : ∀ e ∈ preface, e.path = none)
    (path : String) (file : FileSummary) :
    (path, file) ∈ (summarize groups.keys (preface ++ files.journal.events) files).files ↔
      ∃ w ∈ works, w.path = path ∧ w.entryOf setup = some file := by
  rw [files_summarize hx hpre, List.mem_filterMap]
  constructor
  · rintro ⟨p, -, he⟩
    obtain ⟨file', hfile, hpair⟩ := Option.map_eq_some_iff.1 he
    obtain ⟨rfl, rfl⟩ := Prod.mk.inj hpair
    by_contra hno
    by_cases hp : ∃ w ∈ works, w.path = p
    · obtain ⟨w, hw, rfl⟩ := hp
      rw [hx.entry_work hw] at hfile
      exact hno ⟨w, hw, rfl, hfile⟩
    · rw [hx.entry_none fun w hw he => hp ⟨w, hw, he⟩] at hfile
      cases hfile
  · rintro ⟨w, hw, rfl, hfile⟩
    refine ⟨w.path, List.mem_map_of_mem (hx.group w hw), ?_⟩
    rw [hx.entry_work hw, hfile]
    rfl

/-- The files that a summary gives as written are those whose work ended so. -/
theorem mem_writtenPaths_summarize (hx : Explains setup ws groups works files) (hpre : ∀ e ∈ preface, e.path = none)
    (path : String) :
    path ∈ (summarize groups.keys (preface ++ files.journal.events) files).writtenPaths ↔
      ∃ w ∈ works, w.path = path ∧ ∃ r, w.result setup = .ok r ∧ r.written = true := by
  simp only [Summary.writtenPaths, List.mem_map, List.mem_filter, Prod.exists]
  constructor
  · rintro ⟨p, file, ⟨hmem, hw⟩, rfl⟩
    obtain ⟨w, hwork, hp, hentry⟩ := (mem_files_summarize hx hpre _ _).1 hmem
    exact ⟨w, hwork, hp, (w.written_iff setup).1 ⟨file, hentry, hw⟩⟩
  · rintro ⟨w, hwork, rfl, hres⟩
    obtain ⟨file, hentry, hw⟩ := (w.written_iff setup).2 hres
    exact ⟨w.path, file, ⟨(mem_files_summarize hx hpre _ _).2 ⟨w, hwork, rfl, hentry⟩, hw⟩, rfl⟩

theorem unresolved_summarize (hx : Explains setup ws groups works files) (hpre : ∀ e ∈ preface, e.path = none) :
    (summarize groups.keys (preface ++ files.journal.events) files).unresolved = preface := by
  have hself : preface.filter (·.path = none) = preface :=
    List.filter_eq_self.2 fun e he => by simp [hpre e he]
  have hloose : files.journal.events.filter (·.path = none) = [] :=
    List.filter_eq_nil_iff.2 fun e he => by simpa using hx.loose e he
  show (Summary.ofEvents _ files.written (Table.ofPairs files.diffs) files.interrupted.isSome _).unresolved = _
  rw [Summary.unresolved_ofEvents, List.filter_append, hself, hloose, List.append_nil]

end Summaries

/-! ## Runs over findings -/

/-- The work on the files that findings name. -/
def filesRun (setup : Setup) (schedule : List Turn) (ws : Workspace) (ds : List Diagnostic) : FilesRun :=
  if isPooled setup.options setup.oracle (Grouping.ofDiagnostics ds).groups.length then
    pooled setup schedule ws (Grouping.ofDiagnostics ds).groups
  else sequential setup ws 0 (Grouping.ofDiagnostics ds).groups

/-- Every run over findings has an account. -/
theorem explains_filesRun (setup : Setup) (schedule : List Turn) (ws : Workspace) (ds : List Diagnostic) :
    ∃ works, Explains setup ws (Grouping.ofDiagnostics ds).groups works (filesRun setup schedule ws ds) := by
  unfold filesRun
  split
  · exact explains_pooled setup schedule ws _ (Grouping.nodup_groups ds)
  · exact explains_sequential setup _ ws 0 (Grouping.nodup_groups ds)

/-- The events of findings without a file. -/
def missingEvents (ds : List Diagnostic) : List Event :=
  (Grouping.ofDiagnostics ds).missing.map fun e => ⟨none, some e.diagnostic, .error, e.message⟩

theorem events_missingNotes (missing : List MissingFile) :
    Journal.events (missingNotes missing) = missing.map fun e => ⟨none, some e.diagnostic, .error, e.message⟩ := by
  unfold missingNotes
  induction missing with
  | nil => rfl
  | cons e rest ih => rw [List.flatMap_cons, Journal.events_append, ih]; rfl

theorem calls_missingNotes (missing : List MissingFile) : Journal.calls (missingNotes missing) = [] := by
  unfold missingNotes
  induction missing with
  | nil => rfl
  | cons e rest ih => rw [List.flatMap_cons, Journal.calls_append, ih]; rfl

theorem missingEvents_eq (ds : List Diagnostic) : missingEvents ds =
    (ds.filter (·.file? = none)).map fun d => ⟨none, some d, .error, MissingFile.message ⟨d⟩⟩ := by
  unfold missingEvents
  rw [Grouping.missing_ofDiagnostics, List.map_map]
  rfl

theorem path_of_mem_missingEvents (ds : List Diagnostic) : ∀ e ∈ missingEvents ds, e.path = none := by
  intro e he
  obtain ⟨m, -, rfl⟩ := List.mem_map.1 he
  rfl

section Findings

variable (setup : Setup) (schedule : List Turn) (ws : Workspace) (ds : List Diagnostic)

theorem events_poolNotes (options : RunOptions) (oracle : Oracle) (count : Nat) :
    Journal.events (poolNotes options oracle count) = [] ∧ Journal.calls (poolNotes options oracle count) = [] := by
  unfold poolNotes
  split <;> exact ⟨rfl, rfl⟩

theorem summary_overFindings :
    (overFindings setup schedule ws ds).1 = summarize (Grouping.ofDiagnostics ds).groups.keys
      (missingEvents ds ++ (filesRun setup schedule ws ds).journal.events) (filesRun setup schedule ws ds) := by
  simp only [overFindings, Journal.events_cons_telemetry, Journal.events_append, events_missingNotes,
    (events_poolNotes _ _ _).1, List.append_nil, List.cons_append]
  rfl

theorem queries_missingNotes (missing : List MissingFile) : Journal.queries (missingNotes missing) = [] := by
  unfold missingNotes
  induction missing with
  | nil => rfl
  | cons e rest ih => rw [List.flatMap_cons, Journal.queries_append, ih]; rfl

theorem queries_poolNotes (options : RunOptions) (oracle : Oracle) (count : Nat) :
    Journal.queries (poolNotes options oracle count) = [] := by
  unfold poolNotes
  split <;> rfl

/-- What is said after the work on the files is neither an event nor a query nor a call of the writer. -/
theorem journal_overFindings : ∃ closing : Journal, closing.events = [] ∧ closing.calls = [] ∧ closing.queries = [] ∧
    (overFindings setup schedule ws ds).2.1 = Entry.telemetry "diagnostics" [("count", .int ds.length)] ::
      missingNotes (Grouping.ofDiagnostics ds).missing ++
      poolNotes setup.options setup.oracle (Grouping.ofDiagnostics ds).groups.length ++
      (filesRun setup schedule ws ds).journal ++ closing := by
  have hstopped : ∀ cancelled : Bool, ∃ stopped : Journal, stopped = (if cancelled then
      [.note .warning .run "Run cancelled; remaining files were left untouched"] else []) ∧
      stopped.events = [] ∧ stopped.calls = [] ∧ stopped.queries = [] := by
    rintro (_ | _) <;> exact ⟨_, rfl, rfl, rfl, rfl⟩
  obtain ⟨stopped, hdef, hevents, hcalls, hqueries⟩ := hstopped (overFindings setup schedule ws ds).1.cancelled
  refine ⟨stopped ++ [closing (Grouping.ofDiagnostics ds).groups.length (overFindings setup schedule ws ds).1],
    ?_, ?_, ?_, ?_⟩
  · rw [Journal.events_append, hevents]; rfl
  · rw [Journal.calls_append, hcalls]; rfl
  · rw [Journal.queries_append, hqueries]; rfl
  · rw [hdef, ← List.append_assoc]; rfl

theorem events_overFindings :
    (overFindings setup schedule ws ds).2.1.events =
      missingEvents ds ++ (filesRun setup schedule ws ds).journal.events := by
  obtain ⟨closing, hevents, -, -, hjournal⟩ := journal_overFindings setup schedule ws ds
  rw [hjournal]
  simp only [List.cons_append, Journal.events_cons_telemetry, Journal.events_append, events_missingNotes,
    (events_poolNotes _ _ _).1, hevents, List.append_nil]
  rfl

theorem calls_overFindings :
    (overFindings setup schedule ws ds).2.1.calls = (filesRun setup schedule ws ds).journal.calls := by
  obtain ⟨closing, -, hcalls, -, hjournal⟩ := journal_overFindings setup schedule ws ds
  rw [hjournal]
  simp only [List.cons_append, Journal.calls_cons_telemetry, Journal.calls_append, calls_missingNotes,
    (events_poolNotes _ _ _).2, hcalls, List.append_nil, List.nil_append]

theorem queries_overFindings :
    (overFindings setup schedule ws ds).2.1.queries = (filesRun setup schedule ws ds).journal.queries := by
  obtain ⟨closing, -, -, hqueries, hjournal⟩ := journal_overFindings setup schedule ws ds
  rw [hjournal]
  simp only [List.cons_append, Journal.queries_cons_telemetry, Journal.queries_append, queries_missingNotes,
    queries_poolNotes, hqueries, List.append_nil, List.nil_append]

theorem cancelled_overFindings :
    (overFindings setup schedule ws ds).1.cancelled = (filesRun setup schedule ws ds).interrupted.isSome := rfl

theorem workspace_overFindings :
    (overFindings setup schedule ws ds).2.2 = (filesRun setup schedule ws ds).workspace := rfl

theorem unresolved_overFindings : (overFindings setup schedule ws ds).1.unresolved = missingEvents ds := by
  obtain ⟨works, hx⟩ := explains_filesRun setup schedule ws ds
  rw [summary_overFindings, unresolved_summarize hx (path_of_mem_missingEvents ds)]

/-- A run keeps the documents that were kept before it. -/
theorem kept_overFindings : (overFindings setup schedule ws ds).2.2.loader.Extends ws.loader := by
  intro path document hkept
  rw [workspace_overFindings]
  obtain ⟨works, hx⟩ := explains_filesRun setup schedule ws ds
  by_cases hw : ∃ w ∈ works, w.path = path
  · obtain ⟨w, hw, rfl⟩ := hw
    obtain ⟨before, later, hsplit⟩ := List.append_of_mem hw
    obtain ⟨-, tree, -, -, hloaded⟩ := hx.loads before w later hsplit
    refine (hx.kept w hw document).1 (hloaded.trans ((Loader.load_ok_iff ..).2 ?_))
    exact ws.loader.load_extends tree w.path w.path document hkept
  · rw [hx.frame path fun w hm hp => hw ⟨w, hm, hp⟩]
    exact hkept

/-- Findings without a file change nothing for the files: a run over the others does the same to them. -/
theorem filesRun_filter_isSome :
    filesRun setup schedule ws (ds.filter (·.file?.isSome)) = filesRun setup schedule ws ds := by
  unfold filesRun
  rw [Grouping.groups_filter_isSome]

theorem files_filter_isSome :
    (overFindings setup schedule ws (ds.filter (·.file?.isSome))).1.files = (overFindings setup schedule ws ds).1.files := by
  obtain ⟨works, hx⟩ := explains_filesRun setup schedule ws ds
  have hx' := hx
  rw [← Grouping.groups_filter_isSome, ← filesRun_filter_isSome] at hx'
  rw [summary_overFindings, summary_overFindings, files_summarize hx' (path_of_mem_missingEvents _),
    files_summarize hx (path_of_mem_missingEvents _), filesRun_filter_isSome, Grouping.groups_filter_isSome]

theorem missingEvents_filter_isSome : missingEvents (ds.filter (·.file?.isSome)) = [] := by
  unfold missingEvents
  rw [Grouping.missing_filter_isSome]
  rfl

theorem events_filter_isSome : (overFindings setup schedule ws ds).2.1.events =
    missingEvents ds ++ (overFindings setup schedule ws (ds.filter (·.file?.isSome))).2.1.events := by
  rw [events_overFindings, events_overFindings, missingEvents_filter_isSome, filesRun_filter_isSome, List.nil_append]

end Findings

/-! ## Events of a run and of its works -/

section Events

variable {setup : Setup} {schedule : List Turn} {ws : Workspace} {ds : List Diagnostic} {works : List Work}

/-- An event of a run that is no error comes from the work on a file. -/
theorem work_of_event
    (hx : Explains setup ws (Grouping.ofDiagnostics ds).groups works (filesRun setup schedule ws ds)) {e : Event}
    (he : e ∈ (overFindings setup schedule ws ds).2.1.events) (ho : e.outcome ≠ .error) :
    ∃ w ∈ works, e.path = some w.path ∧ e ∈ (w.journal setup).events := by
  rw [events_overFindings, List.mem_append] at he
  rcases he with he | he
  · obtain ⟨m, -, rfl⟩ := List.mem_map.1 he
    exact absurd rfl ho
  · exact hx.work_of_event he

theorem event_of_work
    (hx : Explains setup ws (Grouping.ofDiagnostics ds).groups works (filesRun setup schedule ws ds)) {w : Work}
    (hw : w ∈ works) {e : Event} (he : e ∈ (w.journal setup).events) :
    e ∈ (overFindings setup schedule ws ds).2.1.events := by
  rw [events_overFindings]
  rw [← hx.events_work hw] at he
  exact List.mem_append_right _ (List.mem_filter.1 he).1

end Events

/-! ## A run over two files -/

/-- A writer to files never asks the run to stop. -/
theorem uncancelled_toFiles (codecs : Codecs) (target : String → FilePath) (encoding : String) (tree : FileTree)
    (path content : String) (failure : Failure)
    (h : ((Writer.toFiles codecs target encoding).write tree path content).result = .error failure) :
    failure.isCancelled = false := by
  simp only [Writer.toFiles] at h
  split at h
  · cases h
  · rename_i fault _
    cases h
    cases fault <;> rfl

/-- Two files of one folder. -/
def sampleWorkspace : Workspace :=
  ⟨⟨[(["a"], .file [49, 50]), (["b"], .file [51, 52])], []⟩, Loader.new none "utf-8"⟩

/-- Two findings of one file at the same start, and one whose fix lies outside its file. -/
def sampleFindings : List Diagnostic :=
  [⟨"E1", some "a", 0, 1, ""⟩, ⟨"E2", some "a", 0, 1, ""⟩, ⟨"E3", some "b", 7, 1, ""⟩]

/-- A finding in each of the files, whose fix fits. -/
def pairOfFindings : List Diagnostic :=
  [⟨"E1", some "a", 0, 1, ""⟩, ⟨"E2", some "b", 1, 1, ""⟩]

/-- Every finding has one fix, which replaces its first character. -/
def sampleSetup : Setup where
  oracle := ⟨fun d _ => .ok [⟨"fix", "", [.replace d.start 1 "x"], none⟩], true⟩
  options := ⟨Rules.none, false, false, 1⟩
  token := Token.never
  writer := defaultWriter sampleWorkspace.loader

theorem sample_uncancelled : Uncancelled sampleSetup :=
  ⟨rfl, ⟨by simp [sampleSetup, Rules.none], by simp [sampleSetup, Rules.none], by simp [sampleSetup, Rules.none]⟩,
    uncancelled_toFiles sampleWorkspace.loader.codecs sampleWorkspace.loader.resolve "utf-8"⟩

end Amend.Run
