/-
What duplicates are skipped for. A start is claimed when a fix is chosen, and the merge comes later
and by another rule, so a finding can be skipped as a duplicate of a fix that is not in the merged
text. It is then a fix that lost every edit to one that is in the text, and it is reported so.
-/
import Amend.Proofs.Run.Truth

namespace Amend.Run

/-- The merge of a file: the document that the run loaded for it, the fixes that were chosen, and what
came of them. -/
structure MergeOf (setup : Setup) (ws : Workspace) (ds : List Diagnostic) (f : String) (document : Document)
    (r : PatchResult) : Prop where
  kept : ws.loader.kept? f = some document
  ending : (chosen setup document (findingsOf f ds)).ending = .ok ()
  apply : (chosen setup document (findingsOf f ds)).patches.apply document = .ok r

/-- The fix of a finding lost the merge: each of its edits was left out, and an edit that was made is
in its way. -/
structure Lost (patches : List Patch) (r : PatchResult) (d : Diagnostic) : Prop where
  skipped : ∀ patch ∈ patches, patch.diagnostic = d → patch ∈ r.skipped
  blocked : ∀ patch ∈ patches, patch.diagnostic = d →
    ∃ taken ∈ r.applied, taken.diagnostic ≠ d ∧ Merge.Blocks taken.edit.span patch.edit.span

/-- A fix that was chosen is in the merged text, or it lost. -/
theorem applied_or_lost {set : PatchSet} {document : Document} {r : PatchResult} (h : set.apply document = .ok r)
    {d : Diagnostic} (hd : d ∈ set.patches.map (·.diagnostic)) :
    (∃ patch ∈ r.applied, patch.diagnostic = d) ∨ d ∈ r.droppedDiagnostics ∧ Lost set.patches r d := by
  have hperm := (PatchSet.apply_ok h).2
  by_cases ha : d ∈ r.applied.map (·.diagnostic)
  · exact .inl (List.mem_map.1 ha)
  · have hskipped : ∀ patch ∈ set.patches, patch.diagnostic = d → patch ∈ r.skipped := by
      intro patch hp hpd
      rcases List.mem_append.1 (hperm.mem_iff.2 hp) with hm | hm
      · exact absurd (List.mem_map.2 ⟨patch, hm, hpd⟩) ha
      · exact hm
    refine .inr ⟨?_, hskipped, fun patch hp hpd => ?_⟩
    · obtain ⟨patch, hp, hpd⟩ := List.mem_map.1 hd
      exact (r.mem_droppedDiagnostics_iff d).2 ⟨List.mem_map.2 ⟨patch, hskipped patch hp hpd, hpd⟩, ha⟩
    · obtain ⟨taken, htaken, hblocks⟩ := PatchSet.apply_blocked h patch (hskipped patch hp hpd)
      exact ⟨taken, htaken, fun he => ha (List.mem_map.2 ⟨taken, htaken, he⟩), hblocks⟩

section Duplicates

variable {setup : Setup} {schedule : List Turn} {ws : Workspace} {ds : List Diagnostic}

/-- In a run without cancellation and without errors each work came through. -/
theorem clean_of_work {works : List Work}
    (hx : Explains setup ws (Grouping.ofDiagnostics ds).groups works (filesRun setup schedule ws ds))
    (hc : (overFindings setup schedule ws ds).1.cancelled = false)
    (hno : ∀ e ∈ (overFindings setup schedule ws ds).2.1.events, e.outcome ≠ .error) {w : Work} (hw : w ∈ works) :
    ∃ document r, Clean setup w (w.journal setup).events document r := by
  rcases (course setup w).fate with ⟨document, r, _, hclean, -⟩ | ⟨before, detail, _, he, -, -⟩ | ⟨failure, hr⟩
  · exact ⟨document, r, hclean⟩
  · have hmem : errorEvent w.path detail ∈ (w.journal setup).events := by rw [he]; simp
    exact absurd rfl (hno _ (event_of_work hx hw hmem))
  · have hstop := (hx.interrupted w.path).2 ⟨w, hw, rfl, failure, hr⟩
    rw [cancelled_overFindings, Option.isSome_eq_false_iff, Option.isNone_iff_eq_none] at hc
    rw [hc] at hstop
    cases hstop

/-- Each duplicate is skipped in favour of a fix that was chosen before it at the same start. An edit
of that fix was made, or the fix is reported to have lost the merge, and did lose it. -/
theorem duplicate_yields (setup : Setup) (schedule : List Turn) (ws : Workspace) (ds : List Diagnostic)
    (hc : (overFindings setup schedule ws ds).1.cancelled = false)
    (hno : ∀ e ∈ (overFindings setup schedule ws ds).2.1.events, e.outcome ≠ .error) {e : Event}
    (he : e ∈ (overFindings setup schedule ws ds).2.1.events) (ho : e.outcome = .skippedDuplicate) :
    ∃ f dup d document r, e.path = some f ∧ e.diagnostic = some dup ∧
      [d, dup].Sublist (findingsOf f ds) ∧ d.start = dup.start ∧
      MergeOf setup (overFindings setup schedule ws ds).2.2 ds f document r ∧
      (∃ fix ∈ (overFindings setup schedule ws ds).2.1.events,
        fix.path = some f ∧ fix.diagnostic = some d ∧ fix.outcome = .fixed) ∧
      ((∃ patch ∈ r.applied, patch.diagnostic = d) ∨
        (∃ lost ∈ (overFindings setup schedule ws ds).2.1.events,
          lost.path = some f ∧ lost.diagnostic = some d ∧ lost.outcome = .skippedOverlap) ∧
        Lost (chosen setup document (findingsOf f ds)).patches.patches r d) := by
  obtain ⟨works, hx⟩ := explains_filesRun setup schedule ws ds
  obtain ⟨w, hw, hpath, he⟩ := work_of_event hx he (by rw [ho]; decide)
  obtain ⟨document, r, hclean⟩ := clean_of_work hx hc hno hw
  have hfindings : w.findings = findingsOf w.path ds := ((Grouping.mem_groups_iff ds _ _).1 (hx.group w hw)).2
  have hchosen : w.selection setup document = chosen setup document (findingsOf w.path ds) := by
    rw [← hfindings]
    exact Work.selection_eq_chosen hclean.ending
  have hevents : ∀ x, x ∈ (w.selection setup document).journal.events ++ overlapEvents w.path r →
      x ∈ (overFindings setup schedule ws ds).2.1.events := by
    intro x hm
    rw [← hclean.events] at hm
    exact event_of_work hx hw hm
  -- the merge reports no duplicates, so the event is one of the selection
  have hselected : e ∈ (w.selection setup document).journal.events := by
    rw [hclean.events] at he
    refine (List.mem_append.1 he).resolve_right fun hm => ?_
    rw [outcome_of_mem_overlapEvents e hm] at ho
    cases ho
  obtain ⟨dup, -, hdiag, hor⟩ := Selection.select_duplicated setup.oracle setup.options.rules setup.token w.asked
    document w.findings e hselected ho
  obtain ⟨d, hd, hsub, hstart⟩ := hor.resolve_left List.not_mem_nil
  obtain ⟨fix, hfix, hfixd, hfixo⟩ := Selection.mem_fixedIn hd
  refine ⟨w.path, dup, d, document, r, hpath, hdiag, hfindings ▸ hsub, hstart, ⟨?_, ?_, ?_⟩, ?_, ?_⟩
  · exact (hx.kept w hw document).1 hclean.loaded
  · exact hchosen ▸ hclean.ending
  · exact hchosen ▸ hclean.apply
  · exact ⟨fix, hevents fix (List.mem_append_left _ hfix), ((w.sound setup document).shape fix hfix).1.trans
      (congrArg some (w.named document hclean.loaded)), hfixd, hfixo⟩
  · refine (applied_or_lost hclean.apply (((w.sound setup document).patches d).2 hd)).imp_right ?_
    rintro ⟨hdropped, hlost⟩
    exact ⟨⟨_, hevents _ (List.mem_append_right _ (List.mem_map_of_mem hdropped)), rfl, rfl, rfl⟩, hchosen ▸ hlost⟩

end Duplicates

/-! ### A duplicate of a fix that loses -/

/-- A work whose merge the writer takes comes through. -/
theorem Merges.comes_through {setup : Setup} {w : Work} {document : Document} {r : PatchResult}
    (hm : Merges setup w document r) (hw : (setup.writer.write w.tree w.path r.after).result = .ok ()) :
    (w.journal setup).events = (w.selection setup document).journal.events ++ overlapEvents w.path r ∧
      ∃ file, w.result setup = .ok file := by
  unfold Work.journal Work.result
  rw [plan_merged hm, planMerged_eq]
  split
  · simp [perform, guarded, events_opening, events_overlapNotes]
  · split
    · simp [perform, guarded, events_opening, events_overlapNotes]
    · simp [perform_store, hw, afterWrite, guarded, events_opening, events_overlapNotes, Journal.events_notes]

/-- The run over the findings of one file is the work on it. -/
theorem filesRun_single {setup : Setup} (schedule : List Turn) {ws : Workspace} {ds : List Diagnostic} {path : String}
    (ht : setup.token = Token.never) (hg : (Grouping.ofDiagnostics ds).groups = [(path, ds)]) {file : FileResult}
    (hr : (Work.inOneGo ws 0 path ds).result setup = .ok file) :
    filesRun setup schedule ws ds = ⟨(Work.inOneGo ws 0 path ds).journal setup, [file], none,
      ⟨(Work.inOneGo ws 0 path ds).after setup, (ws.loader.load ws.tree path).2⟩⟩ := by
  have hseq : isPooled setup.options setup.oracle 1 = false := by simp [isPooled]
  unfold filesRun
  rw [hg, List.length_singleton, hseq]
  simp [sequential, ht, processFile_eq, hr]

/-- A file of six characters. -/
def lettersWorkspace : Workspace :=
  ⟨⟨[(["a"], .file [97, 98, 99, 100, 101, 102])], []⟩, Loader.new none "utf-8"⟩

/-- Two findings at the beginning and one that the fix of the first one reaches over. -/
def lettersFindings : List Diagnostic :=
  [⟨"E1", some "a", 0, 4, ""⟩, ⟨"E2", some "a", 0, 1, ""⟩, ⟨"E3", some "a", 2, 1, ""⟩]

/-- Every finding has one fix, which replaces all of it. -/
def lettersSetup : Setup where
  oracle := ⟨fun d _ => .ok [⟨"fix", "", [.replace d.start d.length "x"], none⟩], true⟩
  options := ⟨Rules.none, false, false, 1⟩
  token := Token.never
  writer := defaultWriter lettersWorkspace.loader

/-- The merge of the file: the later edit is made and the one that reaches over it is left out. -/
def lettersMerge : PatchResult where
  path := "a"
  before := "abcdef"
  after := "abxdef"
  applied := [⟨⟨"E3", some "a", 2, 1, ""⟩, .replace 2 1 "x"⟩]
  skipped := [⟨⟨"E1", some "a", 0, 4, ""⟩, .replace 0 4 "x"⟩]

theorem merges_letters :
    Merges lettersSetup (Work.inOneGo lettersWorkspace 0 "a" lettersFindings) ⟨"a", "abcdef"⟩ lettersMerge where
  loaded := by decide +kernel
  ending := by decide +kernel
  patches := by decide +kernel
  apply := by
    have hpatches : ((Work.inOneGo lettersWorkspace 0 "a" lettersFindings).selection lettersSetup
        ⟨"a", "abcdef"⟩).patches = ⟨"a", [⟨⟨"E1", some "a", 0, 4, ""⟩, .replace 0 4 "x"⟩,
          ⟨⟨"E3", some "a", 2, 1, ""⟩, .replace 2 1 "x"⟩]⟩ := by decide +kernel
    have horder : Merge.byPriority [⟨0, 4⟩, ⟨2, 1⟩] = [(1, ⟨2, 1⟩), (0, ⟨0, 4⟩)] := by
      simp [Merge.byPriority, Merge.numbered, List.mergeSort, List.MergeSort.Internal.splitInTwo]
    rw [hpatches]
    simp only [PatchSet.apply, Merge.mergeBy, Merge.select, List.map_cons, List.map_nil, Edit.replace, horder]
    decide +kernel

theorem filesRun_letters : ∃ file, filesRun lettersSetup [] lettersWorkspace lettersFindings =
    ⟨(Work.inOneGo lettersWorkspace 0 "a" lettersFindings).journal lettersSetup, [file], none,
      ⟨(Work.inOneGo lettersWorkspace 0 "a" lettersFindings).after lettersSetup,
        (lettersWorkspace.loader.load lettersWorkspace.tree "a").2⟩⟩ := by
  obtain ⟨-, file, hr⟩ := merges_letters.comes_through (by decide +kernel)
  exact ⟨file, filesRun_single [] rfl (by decide) hr⟩

theorem events_letters : (overFindings lettersSetup [] lettersWorkspace lettersFindings).2.1.events =
    [⟨some "a", some ⟨"E1", some "a", 0, 4, ""⟩, .fixed, "fix"⟩,
     ⟨some "a", some ⟨"E2", some "a", 0, 1, ""⟩, .skippedDuplicate, "start 0 already fixed"⟩,
     ⟨some "a", some ⟨"E3", some "a", 2, 1, ""⟩, .fixed, "fix"⟩,
     ⟨some "a", some ⟨"E1", some "a", 0, 4, ""⟩, .skippedOverlap, "every edit overlaps an applied edit"⟩] := by
  obtain ⟨file, hrun⟩ := filesRun_letters
  rw [events_overFindings, hrun]
  simp only [(merges_letters.comes_through (by decide +kernel)).1]
  decide +kernel

theorem cancelled_letters : (overFindings lettersSetup [] lettersWorkspace lettersFindings).1.cancelled = false := by
  obtain ⟨file, hrun⟩ := filesRun_letters
  rw [cancelled_overFindings, hrun]
  rfl

theorem kept_letters : (overFindings lettersSetup [] lettersWorkspace lettersFindings).2.2.loader.kept? "a" =
    some ⟨"a", "abcdef"⟩ := by
  obtain ⟨file, hrun⟩ := filesRun_letters
  rw [workspace_overFindings, hrun]
  exact (Loader.load_ok_iff ..).1 merges_letters.loaded

theorem letters_duplicate_yields :
    (∃ e ∈ (overFindings lettersSetup [] lettersWorkspace lettersFindings).2.1.events, e.outcome = .skippedDuplicate) ∧
    ∃ dup d document r, [d, dup].Sublist lettersFindings ∧ d.start = dup.start ∧
      MergeOf lettersSetup (overFindings lettersSetup [] lettersWorkspace lettersFindings).2.2 lettersFindings "a"
        document r ∧
      ((∃ patch ∈ r.applied, patch.diagnostic = d) ∨
        Lost (chosen lettersSetup document lettersFindings).patches.patches r d) := by
  have hall : findingsOf "a" lettersFindings = lettersFindings := by decide
  have he : ⟨some "a", some ⟨"E2", some "a", 0, 1, ""⟩, .skippedDuplicate, "start 0 already fixed"⟩ ∈
      (overFindings lettersSetup [] lettersWorkspace lettersFindings).2.1.events := by
    rw [events_letters]
    decide
  obtain ⟨f, dup, d, document, r, hf, -, hsub, hstart, hmerge, -, hor⟩ :=
    duplicate_yields lettersSetup [] lettersWorkspace lettersFindings cancelled_letters
      (by rw [events_letters]; decide) he rfl
  cases hf
  rw [hall] at hsub hor
  exact ⟨⟨_, he, rfl⟩, dup, d, document, r, hsub, hstart, hmerge, hor.imp_right And.right⟩

/-- The fix that a duplicate is skipped for need not be in the merged text. -/
theorem duplicate_of_lost_fix :
    ¬ ∀ (setup : Setup) (schedule : List Turn) (ws : Workspace) (ds : List Diagnostic),
      (overFindings setup schedule ws ds).1.cancelled = false →
      (∀ e ∈ (overFindings setup schedule ws ds).2.1.events, e.outcome ≠ .error) →
      ∀ e ∈ (overFindings setup schedule ws ds).2.1.events, e.outcome = .skippedDuplicate →
        ∃ f dup d document r, e.path = some f ∧ e.diagnostic = some dup ∧
          [d, dup].Sublist (findingsOf f ds) ∧ d.start = dup.start ∧
          MergeOf setup (overFindings setup schedule ws ds).2.2 ds f document r ∧
          ∃ patch ∈ r.applied, patch.diagnostic = d := by
  intro h
  obtain ⟨f, dup, d, document, r, hf, hdup, -, hstart, hmerge, patch, hpatch, hd⟩ :=
    h lettersSetup [] lettersWorkspace lettersFindings cancelled_letters (by rw [events_letters]; decide)
      ⟨some "a", some ⟨"E2", some "a", 0, 1, ""⟩, .skippedDuplicate, "start 0 already fixed"⟩
      (by rw [events_letters]; decide) rfl
  cases hf
  cases hdup
  obtain rfl : document = ⟨"a", "abcdef"⟩ := Option.some.inj (hmerge.kept.symm.trans kept_letters)
  have hr : (Except.ok r : Except InvalidSpan PatchResult) = .ok lettersMerge := by
    rw [← hmerge.apply, ← merges_letters.apply, Work.selection_eq_chosen merges_letters.ending]
    rfl
  cases hr
  -- the one edit that is made is not at the start of the duplicate
  rw [List.mem_singleton.1 hpatch] at hd
  rw [← hd] at hstart
  exact absurd hstart (by decide)

end Amend.Run
