/-
When a run writes. The writer is called for a file at most once, and exactly if the run is not dry
and the file has findings, a document, a selection that ended well with edits that all fit, and a
merged text that differs from the document. It is called with that text, and the files that the
summary gives as written are those for which it succeeded.
-/
import Amend.Proofs.Run.Report

namespace Amend.Run

section Courses

variable {setup : Setup} {w : Work} {events : List Event} {calls : List WriterCall}
  {result : Except Failure FileResult}

/-- A work has one merge at most. -/
theorem Merges.unique {document document' : Document} {r r' : PatchResult} (hm : Merges setup w document r)
    (hm' : Merges setup w document' r') : document = document' ∧ r = r' := by
  have hl := hm.loaded.symm.trans hm'.loaded
  cases hl
  have ha := hm.apply.symm.trans hm'.apply
  cases ha
  exact ⟨rfl, rfl⟩

theorem Merges.changed_iff {document : Document} {r : PatchResult} (hm : Merges setup w document r) :
    r.changed = true ↔ r.after ≠ document.text := by
  rw [← (PatchSet.apply_ok hm.apply).1]
  unfold PatchResult.changed
  simp

theorem Merges.document_eq {document document' : Document} {r : PatchResult} (hm : Merges setup w document r)
    (hl : w.loaded = .ok document') : document = document' :=
  Except.ok.inj (hm.loaded.symm.trans hl)

/-- A work that has a text to write: the run is not dry, and a merge led to the text, which is new. -/
def Rewrites (setup : Setup) (w : Work) (content : String) : Prop :=
  setup.options.dryRun = false ∧ ∃ document r, Merges setup w document r ∧ r.after ≠ document.text ∧ content = r.after

theorem Merges.rewrites_iff {document : Document} {r : PatchResult} (hm : Merges setup w document r)
    (content : String) :
    Rewrites setup w content ↔ setup.options.dryRun = false ∧ r.changed = true ∧ content = r.after := by
  unfold Rewrites
  refine and_congr_right fun _ => ?_
  rw [hm.changed_iff]
  constructor
  · rintro ⟨document', r', hm', hne, rfl⟩
    obtain ⟨rfl, rfl⟩ := hm.unique hm'
    exact ⟨hne, rfl⟩
  · rintro ⟨hne, rfl⟩
    exact ⟨document, r, hm, hne, rfl⟩

/-- The writer is called with a text exactly if a merge led to it and it is a new one. -/
theorem Course.call_iff (h : Course setup w events calls result) (content : String) :
    (∃ outcome, ⟨w.path, content, outcome⟩ ∈ calls) ↔
      setup.options.dryRun = false ∧ ∃ document r, Merges setup w document r ∧ r.after ≠ document.text ∧
        content = r.after := by
  show _ ↔ Rewrites setup w content
  cases h with
  | unloaded fault detail hl =>
    have hno : ¬ Rewrites setup w content := by
      rintro ⟨-, document, r, hm, -⟩
      rw [hm.loaded] at hl
      cases hl
    simp [hno]
  | broken document failure hl he | interrupted document failure hl he =>
    have hno : ¬ Rewrites setup w content := by
      rintro ⟨-, document', r, hm, -⟩
      obtain rfl := hm.document_eq hl
      rw [hm.ending] at he
      cases he
    simp [hno]
  | idle document hl he hp =>
    have hno : ¬ Rewrites setup w content := by
      rintro ⟨-, document', r, hm, -⟩
      obtain rfl := hm.document_eq hl
      exact hm.patches hp
    simp [hno]
  | misfit document e hl he hp ha =>
    have hno : ¬ Rewrites setup w content := by
      rintro ⟨-, document', r, hm, -⟩
      obtain rfl := hm.document_eq hl
      rw [hm.apply] at ha
      cases ha
    simp [hno]
  | unchanged document r hm hc => simp [hm.rewrites_iff, hc]
  | dry document r hm hc hd => simp [hm.rewrites_iff, hd]
  | written document r hm hc hd hw => simp [hm.rewrites_iff, hc, hd]
  | unwritten document r failure diff hm hc hd hw hf => simp [hm.rewrites_iff, hc, hd]
  | stopped document r failure hm hc hd hw hf => simp [hm.rewrites_iff, hc, hd]

theorem Course.length_calls (h : Course setup w events calls result) : calls.length ≤ 1 := by
  cases h <;> simp

/-- The work on a file ends with the file written exactly if the writer was called and succeeded. -/
theorem Course.written_iff (h : Course setup w events calls result) :
    (∃ r, result = .ok r ∧ r.written = true) ↔ ∃ content, ⟨w.path, content, .ok ()⟩ ∈ calls := by
  cases h <;> simp [untouched]

end Courses

section Calls

variable {setup : Setup} {ws : Workspace} {groups : Table String (List Diagnostic)} {works : List Work}
  {files : FilesRun}

theorem Explains.length_calls (hx : Explains setup ws groups works files) (path : String) :
    (files.journal.calls.filter (·.path = path)).length ≤ 1 := by
  by_cases hw : ∃ w ∈ works, w.path = path
  · obtain ⟨w, hw, rfl⟩ := hw
    rw [hx.calls_work hw]
    exact (course setup w).length_calls
  · rw [← Journal.calls_about, hx.about_none fun w hm hp => hw ⟨w, hm, hp⟩]
    exact Nat.zero_le 1

/-- The writer is called for files of the groups alone. -/
theorem Explains.key_of_call (hx : Explains setup ws groups works files) {call : WriterCall}
    (hc : call ∈ files.journal.calls) : call.path ∈ groups.keys := by
  by_contra hkey
  have hnone : ∀ w ∈ works, w.path ≠ call.path := by
    intro w hw he
    exact hkey (he ▸ List.mem_map_of_mem (hx.group w hw))
  have hempty : files.journal.calls.filter (·.path = call.path) = [] := by
    rw [← Journal.calls_about, hx.about_none hnone]
    rfl
  exact List.filter_eq_nil_iff.1 hempty call hc (decide_eq_true rfl)

end Calls

/-- The writing of a run that nothing cancels. `document` is what the run loaded for the file: its
loader keeps it. -/
theorem write_discipline {setup : Setup} (hu : Uncancelled setup) (schedule : List Turn) (ws : Workspace)
    (ds : List Diagnostic) (path : String) :
    ((overFindings setup schedule ws ds).2.1.calls.filter (·.path = path)).length ≤ 1 ∧
    (∀ content, (∃ outcome, ⟨path, content, outcome⟩ ∈ (overFindings setup schedule ws ds).2.1.calls) ↔
      setup.options.dryRun = false ∧ path ∈ (Grouping.ofDiagnostics ds).groups.keys ∧
      ∃ document r, (overFindings setup schedule ws ds).2.2.loader.kept? path = some document ∧
        (chosen setup document (findingsOf path ds)).ending = .ok () ∧
        (chosen setup document (findingsOf path ds)).patches.patches ≠ [] ∧
        (∀ patch ∈ (chosen setup document (findingsOf path ds)).patches.patches,
          patch.edit.span.fits document.size = true) ∧
        (chosen setup document (findingsOf path ds)).patches.apply document = .ok r ∧
        r.after ≠ document.text ∧ content = r.after) ∧
    (path ∈ (overFindings setup schedule ws ds).1.writtenPaths ↔
      ∃ content, ⟨path, content, .ok ()⟩ ∈ (overFindings setup schedule ws ds).2.1.calls) := by
  obtain ⟨works, hx⟩ := explains_filesRun setup schedule ws ds
  rw [calls_overFindings, workspace_overFindings, summary_overFindings,
    mem_writtenPaths_summarize hx (path_of_mem_missingEvents ds)]
  by_cases hkey : path ∈ (Grouping.ofDiagnostics ds).groups.keys
  · obtain ⟨⟨path, fs⟩, hrow, rfl⟩ := List.mem_map.1 hkey
    obtain ⟨w, hw, he⟩ := (hx.all hu).2 _ hrow
    obtain ⟨rfl, rfl⟩ := Prod.mk.inj he
    have hfindings := ((Grouping.mem_groups_iff ds _ _).1 hrow).2
    have hcalls : ∀ content outcome, ⟨w.path, content, outcome⟩ ∈ (filesRun setup schedule ws ds).journal.calls ↔
        ⟨w.path, content, outcome⟩ ∈ (w.journal setup).calls := by
      intro content outcome
      rw [← hx.calls_work hw, List.mem_filter]
      simp
    have hselection : ∀ document, w.selection setup document = chosen setup document (findingsOf w.path ds) := by
      intro document
      unfold Work.selection chosen
      rw [hu.token, Selection.select_never_asked, hfindings]
    refine ⟨?_, fun content => ?_, ?_⟩
    · rw [hx.calls_work hw]
      exact (course setup w).length_calls
    · simp only [hcalls, (course setup w).call_iff content]
      refine and_congr_right fun _ => ?_
      constructor
      · rintro ⟨document, r, hm, hne, rfl⟩
        refine ⟨hkey, document, r, (hx.kept w hw document).1 hm.loaded, ?_, ?_, ?_, ?_, hne, rfl⟩
        · rw [← hselection]; exact hm.ending
        · rw [← hselection]; exact hm.patches
        · rw [← hselection]; exact (PatchSet.apply_ok_iff _ _).1 ⟨r, hm.apply⟩
        · rw [← hselection]; exact hm.apply
      · rintro ⟨-, document, r, hk, hend, hp, -, happly, hne, rfl⟩
        rw [← hselection] at hend hp happly
        exact ⟨document, r, ⟨(hx.kept w hw document).2 hk, hend, hp, happly⟩, hne, rfl⟩
    · simp only [hcalls, ← (course setup w).written_iff]
      constructor
      · rintro ⟨v, hv, hp, hres⟩
        rwa [hx.eq_of_path hv hw hp] at hres
      · exact fun hres => ⟨w, hw, rfl, hres⟩
  -- a file without findings: no work was on it
  · have hnone : ∀ w ∈ works, w.path ≠ path := by
      rintro w hw rfl
      exact hkey (List.mem_map_of_mem (hx.group w hw))
    have hempty : (filesRun setup schedule ws ds).journal.calls.filter (·.path = path) = [] := by
      rw [← Journal.calls_about, hx.about_none hnone]
      rfl
    have hcalls : ∀ content outcome, ⟨path, content, outcome⟩ ∉ (filesRun setup schedule ws ds).journal.calls := by
      intro content outcome hmem
      have := List.filter_eq_nil_iff.1 hempty _ hmem
      simp at this
    refine ⟨by rw [hempty]; exact Nat.zero_le 1, fun content => ?_, ?_⟩
    · simp [hcalls, hkey]
    · simp only [hcalls, exists_false, iff_false]
      rintro ⟨w, hw, hp, -⟩
      exact hnone w hw hp

theorem sample_write_discipline :
    "a" ∈ (overFindings sampleSetup [] sampleWorkspace sampleFindings).1.writtenPaths ∧
    ∃ content, ⟨"a", content, .ok ()⟩ ∈ (overFindings sampleSetup [] sampleWorkspace sampleFindings).2.1.calls := by
  have hwritten : "a" ∈ (overFindings sampleSetup [] sampleWorkspace sampleFindings).1.writtenPaths := by
    decide +kernel
  obtain ⟨-, -, h⟩ := write_discipline sample_uncancelled [] sampleWorkspace sampleFindings "a"
  exact ⟨hwritten, h.1 hwritten⟩

end Amend.Run
