/-
Files do not notice each other. If the files of a run are apart, what happens to one of them is what
happens to it in a run over its own findings: the same events, the same entry in the summary, and the
same call of the writer. What the loader keeps, the starts that are claimed, the counts of the summary
and whatever goes wrong elsewhere belong to other files and leave it alone.
-/
import Amend.Proofs.Run.Workers

namespace Amend.Run

/-! ## Files that are apart -/

section Apart

variable {writer : Writer} {ws : Workspace} {paths others : List String}

theorem Disturbed.mono (hsub : others ⊆ paths) {path : String} {tree : FileTree}
    (h : Disturbed writer ws others path tree) : Disturbed writer ws paths path tree := by
  induction h with
  | start => exact .start
  | write content _ ho hne hl ih => exact .write content ih (hsub ho) hne hl

/-- Fewer files are apart as well. -/
theorem Apart.mono (ha : Apart writer ws paths) (hsub : others ⊆ paths) : Apart writer ws others :=
  ⟨fun path hp tree ht => ha.fetch path (hsub hp) tree (ht.mono hsub),
    fun path hp tree ht => ha.write path (hsub hp) tree (ht.mono hsub)⟩

/-- A writer that fails for some texts of some files of its own accord, before anything is written. -/
def refusing (refusal : String → String → Option Failure) (writer : Writer) : Writer where
  write tree path content := match refusal path content with
    | some failure => ⟨.error failure, tree, []⟩
    | none => writer.write tree path content

theorem disturbed_refusing {refusal : String → String → Option Failure} {path : String} {tree : FileTree}
    (h : Disturbed (refusing refusal writer) ws paths path tree) : Disturbed writer ws paths path tree := by
  induction h with
  | start => exact .start
  | @write tree other document content _ ho hne hl ih =>
    simp only [refusing]
    split
    · exact ih
    · exact .write content ih ho hne hl

/-- However a writer fails of its own accord, it keeps apart the files that it kept apart before. -/
theorem Apart.refusing (ha : Apart writer ws paths) (refusal : String → String → Option Failure) :
    Apart (refusing refusal writer) ws paths := by
  refine ⟨fun path hp tree ht => ha.fetch path hp tree (disturbed_refusing ht), fun path hp tree ht content => ?_⟩
  simp only [Run.refusing]
  split
  · rfl
  · exact ha.write path hp tree (disturbed_refusing ht) content

end Apart

/-! ## One file of a run -/

section Alone

variable {setup : Setup} {ws : Workspace} {ds : List Diagnostic}

/-- The events of a file are those of the work on it without any other. -/
theorem events_alone (hu : Uncancelled setup) (ha : Apart setup.writer ws (Grouping.ofDiagnostics ds).groups.keys)
    (schedule : List Turn) (path : String) :
    (overFindings setup schedule ws ds).2.1.events.filter (·.path = some path) =
      if findingsOf path ds = [] then []
      else ((Work.inOneGo ws 0 path (findingsOf path ds)).journal setup).events := by
  obtain ⟨works, hx⟩ := explains_filesRun setup schedule ws ds
  have hmissing : (missingEvents ds).filter (·.path = some path) = [] :=
    List.filter_eq_nil_iff.2 fun e he => by simp [path_of_mem_missingEvents ds e he]
  rw [events_overFindings, List.filter_append, hmissing, List.nil_append]
  split
  · rename_i hempty
    have hnone : ∀ w ∈ works, w.path ≠ path := by
      rintro w hw rfl
      exact ((Grouping.mem_groups_iff ds _ _).1 (hx.group w hw)).1 hempty
    rw [← Journal.events_about, hx.about_none hnone]
    rfl
  · rename_i hne
    obtain ⟨w, hw, he⟩ := (hx.all hu).2 _ ((Grouping.mem_groups_iff ds path _).2 ⟨hne, rfl⟩)
    obtain ⟨rfl, hfs⟩ := Prod.mk.inj he
    rw [hx.events_work hw, (hx.alone hu ha hw).1, hfs]

/-- The entry of a file is that of the work on it without any other. -/
theorem entry_alone (hu : Uncancelled setup) (ha : Apart setup.writer ws (Grouping.ofDiagnostics ds).groups.keys)
    (schedule : List Turn) (path : String) :
    (overFindings setup schedule ws ds).1.files.get? path =
      if findingsOf path ds = [] then none
      else (Work.inOneGo ws 0 path (findingsOf path ds)).entryOf setup := by
  rw [summary_alone hu ha schedule, Table.get?_filterMap (Grouping.nodup_groups ds),
    (Grouping.sorted_ofDiagnostics ds).row]
  split <;> rfl

/-- The findings that name a file are all that the run over its own findings has. -/
theorem findingsOf_own (path : String) (ds : List Diagnostic) :
    findingsOf path (ds.filter (·.path = some path)) = findingsOf path ds := by
  unfold findingsOf
  rw [List.filter_filter]
  refine List.filter_congr fun d _ => ?_
  have himp : d.file? = some path → d.path = some path := fun h => (Option.filter_eq_some_iff.1 h).1
  by_cases hd : d.file? = some path
  · simp [hd, himp hd]
  · simp [hd]

theorem keys_own (path : String) (ds : List Diagnostic) :
    (Grouping.ofDiagnostics (ds.filter (·.path = some path))).groups.keys ⊆ (Grouping.ofDiagnostics ds).groups.keys := by
  intro other hother
  rw [Grouping.mem_keys_groups_iff] at hother ⊢
  unfold findingsOf at hother ⊢
  obtain ⟨d, hd⟩ := List.exists_mem_of_ne_nil _ hother
  obtain ⟨hmem, hfile⟩ := List.mem_filter.1 hd
  exact List.ne_nil_of_mem (List.mem_filter.2 ⟨(List.mem_filter.1 hmem).1, hfile⟩)

/-- What happens to a file is what happens to it in a run over its own findings, whatever becomes of
the other files. -/
theorem file_isolated (hu : Uncancelled setup) (ha : Apart setup.writer ws (Grouping.ofDiagnostics ds).groups.keys)
    (schedule schedule' : List Turn) (f : String) :
    (overFindings setup schedule ws ds).2.1.events.filter (·.path = some f) =
      (overFindings setup schedule' ws (ds.filter (·.path = some f))).2.1.events.filter (·.path = some f) ∧
    (overFindings setup schedule ws ds).1.files.get? f =
      (overFindings setup schedule' ws (ds.filter (·.path = some f))).1.files.get? f ∧
    (overFindings setup schedule ws ds).2.1.calls.filter (·.path = f) =
      (overFindings setup schedule' ws (ds.filter (·.path = some f))).2.1.calls.filter (·.path = f) := by
  have ha' := ha.mono (keys_own f ds)
  rw [events_alone hu ha, events_alone hu ha', entry_alone hu ha, entry_alone hu ha', calls_alone hu ha,
    calls_alone hu ha', findingsOf_own]
  exact ⟨rfl, rfl, rfl⟩

end Alone

/-! ### A file that cannot be written -/

/-- The run over two files with a writer that breaks at one of them. -/
def brokenSetup : Setup :=
  { sampleSetup with
    writer := refusing (fun path _ => if path = "b" then some (.broken "RuntimeError" "disk on fire") else none)
      sampleSetup.writer }

theorem uncancelled_brokenSetup : Uncancelled brokenSetup := by
  refine ⟨sample_uncancelled.token, sample_uncancelled.rules, fun tree path content failure h => ?_⟩
  simp only [brokenSetup, refusing] at h
  split at h
  · rename_i hrefused
    split at hrefused
    · cases hrefused; cases h; rfl
    · cases hrefused
  · exact sample_uncancelled.writer tree path content failure h

theorem apart_brokenSetup :
    Apart brokenSetup.writer sampleWorkspace (Grouping.ofDiagnostics pairOfFindings).groups.keys := by
  have hkeys : (Grouping.ofDiagnostics pairOfFindings).groups.keys =
      (Grouping.ofDiagnostics sampleFindings).groups.keys := by decide
  rw [hkeys]
  exact sample_apart.refusing _

theorem sample_file_isolated :
    (∃ e ∈ (overFindings brokenSetup [] sampleWorkspace pairOfFindings).2.1.events,
      e.path = some "b" ∧ e.outcome = .error) ∧
    "a" ∈ (overFindings brokenSetup [] sampleWorkspace pairOfFindings).1.writtenPaths ∧
    (overFindings brokenSetup [] sampleWorkspace pairOfFindings).1.files.get? "a" =
      (overFindings brokenSetup [] sampleWorkspace (pairOfFindings.filter (·.path = some "a"))).1.files.get? "a" :=
  ⟨by decide +kernel, by decide +kernel,
    (file_isolated uncancelled_brokenSetup apart_brokenSetup [] [] "a").2.1⟩

end Amend.Run
