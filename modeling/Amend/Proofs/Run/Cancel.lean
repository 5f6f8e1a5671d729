/-
Cancellation cuts a run short and does nothing else. The token is looked at between files and between
findings; up to the look that finds it set, the run says and does what it would have done anyway, and
after that look nothing. So the events, the queries and the calls of the writer are a beginning of
those of the run that nobody stops, and a file that the writer is called for gets its complete merge.
-/
import Amend.Proofs.Run.Reload

namespace Amend.Run

open Selection (Stopped)

/-- The same run with another token. -/
def Setup.withToken (setup : Setup) (token : Token) : Setup :=
  { setup with token := token }

/-! ## Queries -/

section Queries

variable {setup : Setup} {w : Work} {document : Document}

theorem queries_overlapNotes (path : String) (r : PatchResult) : Journal.queries (overlapNotes path r) = [] := by
  simp [overlapNotes, Journal.queries, List.filterMap_map, Function.comp_def, Entry.query?]

theorem queries_guarded (path : String) {journal : Journal} (result : Except Failure FileResult)
    (hj : journal.queries = []) : (guarded path (journal, result)).1.queries = [] := by
  unfold guarded
  split
  · split
    · simp_all
    · simp_all [fileError]
  · exact hj

theorem queries_perform (setup : Setup) (tree : FileTree) (path : String) (next : Next) :
    (perform setup tree path next).1.queries = [] := by
  cases next with
  | finish result => exact queries_guarded path result rfl
  | store content diff applied skipped =>
    rw [perform_store]
    simp only [List.cons_append, Journal.queries_cons_write, Journal.queries_append, Journal.queries_notes,
      List.nil_append]
    refine queries_guarded path _ ?_
    split <;> simp [fileError]

/-- The plan for a file begins with the choice of its fixes, and no query follows. -/
theorem plan_begins (setup : Setup) (hl : w.loaded = .ok document) :
    ∃ more, (w.plan setup).journal = w.opening setup document ++ more ∧ more.queries = [] := by
  rcases he : (w.selection setup document).ending with failure | _
  · exact ⟨[], by rw [plan_failed hl he, List.append_nil], rfl⟩
  by_cases hp : (w.selection setup document).patches.patches = []
  · exact ⟨[], by rw [plan_idle hl he hp, List.append_nil], rfl⟩
  rw [plan_patched hl he hp]
  split
  · exact ⟨_, rfl, rfl⟩
  · exact ⟨_, rfl, queries_overlapNotes _ _⟩

/-- Queries are put while the fixes of a file are chosen, and at no other time. -/
theorem queries_journal (hl : w.loaded = .ok document) :
    (w.journal setup).queries = (w.selection setup document).journal.queries := by
  obtain ⟨more, hplan, hmore⟩ := plan_begins setup hl
  unfold Work.journal
  rw [hplan]
  simp only [Journal.queries_append, hmore, queries_perform, List.append_nil]
  rfl

theorem queries_unloaded {fault : LoadFault} (hl : w.loaded = .error fault) : (w.journal setup).queries = [] := by
  unfold Work.journal
  rcases plan_error setup hl with ⟨-, hp⟩ | hp
  · rw [hp, Journal.queries_append, queries_perform]; rfl
  · rw [hp, Journal.queries_append, queries_perform]; rfl

/-- A token that is set after `n` queries lets the work on a file put no more of them. -/
theorem Work.queries_le {n : Nat} (hk : setup.token = Token.afterQueries n) (w : Work) (hn : w.asked ≤ n) :
    w.asked + (w.journal setup).queries.length ≤ n := by
  rcases hl : w.loaded with fault | document
  · rw [queries_unloaded hl]; exact hn
  · rw [queries_journal hl]
    unfold Work.selection
    rw [hk]
    exact Selection.select_queries_le hn _

end Queries

/-! ## One file -/

/-- The work on a file is the one that no token stops, or is stopped while the fixes are chosen. -/
theorem Work.cut (setup : Setup) (w : Work) :
    w.plan setup = w.plan (setup.withToken Token.never) ∨
    w.result setup = .error Failure.runCancelled ∧
      Stopped setup.token w.asked (w.journal setup) (w.journal (setup.withToken Token.never)) := by
  rcases hl : w.loaded with fault | document
  · refine .inl ?_
    unfold Work.plan planLoaded
    rw [hl]
  rcases Selection.select_cut setup.oracle setup.options.rules setup.token w.asked document w.findings with
    heq | ⟨hend, hstop⟩
  · refine .inl ?_
    rw [plan_ok hl, plan_ok hl]
    unfold Run.plan
    rw [heq]
    rfl
  · have hplan : w.plan setup = _ := plan_failed hl hend
    obtain ⟨more, hfull, -⟩ := plan_begins (setup.withToken Token.never) hl
    refine .inr ⟨by unfold Work.result; rw [hplan]; rfl, ?_⟩
    have hsaid : w.journal setup = w.opening setup document := by
      unfold Work.journal
      rw [hplan]
      exact List.append_nil _
    have hbegins : w.opening (setup.withToken Token.never) document <+: w.journal (setup.withToken Token.never) := by
      unfold Work.journal
      rw [hfull, List.append_assoc]
      exact List.prefix_append ..
    rw [hsaid]
    exact (Stopped.after [.note .info .run s!"Processing code fixes for {w.path}"] hstop).extend hbegins

/-- Works with the same plan go the same way, whatever token they are under. -/
theorem Work.same_of_plan {setup : Setup} {w : Work} {token : Token}
    (h : w.plan setup = w.plan (setup.withToken token)) :
    w.journal setup = w.journal (setup.withToken token) ∧ w.result setup = w.result (setup.withToken token) ∧
      w.after setup = w.after (setup.withToken token) := by
  unfold Work.journal Work.result Work.after
  rw [h]
  exact ⟨rfl, rfl, rfl⟩

/-! ## Files one after the other -/

section Sequential

variable {setup : Setup} {ws : Workspace} {asked : Nat} {path : String} {ds : List Diagnostic}
  {rest : Table String (List Diagnostic)}

theorem sequential_set (hset : setup.token.isSet ⟨asked, path, none⟩ = true) :
    sequential setup ws asked ((path, ds) :: rest) = ⟨[], [], some [], ws⟩ := by
  rw [sequential, if_pos hset]

theorem sequential_error (hset : setup.token.isSet ⟨asked, path, none⟩ = false) {failure : Failure}
    (hr : (Work.inOneGo ws asked path ds).result setup = .error failure) :
    sequential setup ws asked ((path, ds) :: rest) =
      ⟨(Work.inOneGo ws asked path ds).journal setup, [], some [path],
        ⟨(Work.inOneGo ws asked path ds).after setup, (ws.loader.load ws.tree path).2⟩⟩ := by
  rw [sequential, if_neg (by rw [hset]; decide)]
  simp only [processFile_eq, hr]

theorem sequential_ok (hset : setup.token.isSet ⟨asked, path, none⟩ = false) {result : FileResult}
    (hr : (Work.inOneGo ws asked path ds).result setup = .ok result) :
    sequential setup ws asked ((path, ds) :: rest) =
      let others := sequential setup ⟨(Work.inOneGo ws asked path ds).after setup, (ws.loader.load ws.tree path).2⟩
        (asked + ((Work.inOneGo ws asked path ds).journal setup).queries.length) rest
      { others with journal := (Work.inOneGo ws asked path ds).journal setup ++ others.journal
                    results := result :: others.results } := by
  rw [sequential, if_neg (by rw [hset]; decide)]
  simp only [processFile_eq, hr]

/-- What is said of the first file stands at the beginning. -/
theorem journal_begins (hset : setup.token.isSet ⟨asked, path, none⟩ = false) :
    (Work.inOneGo ws asked path ds).journal setup <+: (sequential setup ws asked ((path, ds) :: rest)).journal := by
  rcases hr : (Work.inOneGo ws asked path ds).result setup with failure | result
  · simp only [sequential_error hset hr, List.prefix_refl]
  · rw [sequential_ok hset hr]
    exact List.prefix_append ..

/-- The work on files one after the other is the one that no token stops, or is stopped in the course
of it. -/
theorem sequential_cut (setup : Setup) (groups : Table String (List Diagnostic)) : ∀ (ws : Workspace) (asked : Nat),
    sequential setup ws asked groups = sequential (setup.withToken Token.never) ws asked groups ∨
    (sequential setup ws asked groups).interrupted ≠ none ∧
      Stopped setup.token asked (sequential setup ws asked groups).journal
        (sequential (setup.withToken Token.never) ws asked groups).journal := by
  induction groups with
  | nil => intro _ _; exact .inl rfl
  | cons row rest ih =>
    obtain ⟨path, ds⟩ := row
    intro ws asked
    cases hset : setup.token.isSet ⟨asked, path, none⟩ with
    | true =>
      rw [sequential_set hset]
      exact .inr ⟨by simp, List.nil_prefix, _, hset, rfl⟩
    | false =>
      have hnever : (setup.withToken Token.never).token.isSet ⟨asked, path, none⟩ = false := rfl
      rcases (Work.inOneGo ws asked path ds).cut setup with hplan | ⟨hr, hstop⟩
      · obtain ⟨hjournal, hresult, hafter⟩ := Work.same_of_plan hplan
        rcases hr : (Work.inOneGo ws asked path ds).result setup with failure | result
        · rw [sequential_error hset hr, sequential_error hnever (hresult ▸ hr), hjournal, hafter]
          exact .inl rfl
        · rw [sequential_ok hset hr, sequential_ok hnever (hresult ▸ hr), ← hjournal, ← hafter]
          rcases ih ⟨(Work.inOneGo ws asked path ds).after setup, (ws.loader.load ws.tree path).2⟩
            (asked + ((Work.inOneGo ws asked path ds).journal setup).queries.length) with heq | ⟨hstopped, hstop⟩
          · exact .inl (by rw [heq])
          · exact .inr ⟨hstopped, hstop.after _⟩
      · rw [sequential_error hset hr]
        exact .inr ⟨by simp, hstop.extend (journal_begins hnever)⟩

/-- A token that is set after `n` queries lets a run put no more of them. -/
theorem sequential_queries_le {n : Nat} (hk : setup.token = Token.afterQueries n)
    (groups : Table String (List Diagnostic)) : ∀ (ws : Workspace) (asked : Nat), asked ≤ n →
    asked + (sequential setup ws asked groups).journal.queries.length ≤ n := by
  induction groups with
  | nil => intro _ _ h; exact h
  | cons row rest ih =>
    obtain ⟨path, ds⟩ := row
    intro ws asked hn
    cases hset : setup.token.isSet ⟨asked, path, none⟩ with
    | true => rw [sequential_set hset]; exact hn
    | false =>
      have hfile := (Work.inOneGo ws asked path ds).queries_le hk hn
      rcases hr : (Work.inOneGo ws asked path ds).result setup with failure | result
      · rw [sequential_error hset hr]; exact hfile
      · rw [sequential_ok hset hr]
        have hrest := ih ⟨(Work.inOneGo ws asked path ds).after setup, (ws.loader.load ws.tree path).2⟩ _ hfile
        simp only [Journal.queries_append, List.length_append]
        simp only [Work.inOneGo] at hrest ⊢
        omega

/-- Files are done from the first to the last, and the run is not cancelled exactly if all are. -/
theorem results_sequential (setup : Setup) (groups : Table String (List Diagnostic)) : ∀ (ws : Workspace) (asked : Nat),
    (sequential setup ws asked groups).results.map (·.path) <+: groups.keys ∧
    ((sequential setup ws asked groups).interrupted = none ↔
      (sequential setup ws asked groups).results.map (·.path) = groups.keys) := by
  induction groups with
  | nil => intro _ _; exact ⟨List.nil_prefix, by simp [sequential, Table.keys]⟩
  | cons row rest ih =>
    obtain ⟨path, ds⟩ := row
    intro ws asked
    cases hset : setup.token.isSet ⟨asked, path, none⟩ with
    | true => rw [sequential_set hset]; simp [Table.keys]
    | false =>
      rcases hr : (Work.inOneGo ws asked path ds).result setup with failure | result
      · rw [sequential_error hset hr]; simp [Table.keys]
      · obtain ⟨hfirst, hnone⟩ := ih ⟨(Work.inOneGo ws asked path ds).after setup, (ws.loader.load ws.tree path).2⟩
          (asked + ((Work.inOneGo ws asked path ds).journal setup).queries.length)
        have hpath : result.path = path := (course setup (Work.inOneGo ws asked path ds)).path_of_result hr
        rw [sequential_ok hset hr]
        simp only [List.map_cons, hpath, hnone]
        exact ⟨(List.prefix_cons_inj path).2 hfirst, by simp [Table.keys]⟩

end Sequential

/-! ## Complete merges -/

/-- The fixes of a file, chosen without a stop and merged into the document, give this text. -/
def MergesTo (setup : Setup) (ds : List Diagnostic) (path : String) (document : Document) (text : String) : Prop :=
  (chosen setup document (findingsOf path ds)).ending = .ok () ∧
    ∃ r, (chosen setup document (findingsOf path ds)).patches.apply document = .ok r ∧ r.after = text

/-- Wherever a run is cancelled, the writer is called for a file with its complete merge or not at all. -/
theorem calls_complete (setup : Setup) (schedule : List Turn) (ws : Workspace) (ds : List Diagnostic) (path : String) :
    (overFindings setup schedule ws ds).2.1.calls.filter (·.path = path) = [] ∨
    ∃ document text outcome, (overFindings setup schedule ws ds).2.2.loader.kept? path = some document ∧
      MergesTo setup ds path document text ∧
      (overFindings setup schedule ws ds).2.1.calls.filter (·.path = path) = [⟨path, text, outcome⟩] := by
  obtain ⟨works, hx⟩ := explains_filesRun setup schedule ws ds
  rw [calls_overFindings, workspace_overFindings]
  by_cases hp : ∃ w ∈ works, w.path = path
  · obtain ⟨w, hw, rfl⟩ := hp
    rw [hx.calls_work hw]
    have hcourse := course setup w
    have hlength := hcourse.length_calls
    rcases hcalls : (w.journal setup).calls with _ | ⟨call, more⟩
    · exact .inl rfl
    · rw [hcalls] at hcourse hlength
      obtain rfl : more = [] := by
        rw [List.length_cons] at hlength
        exact List.length_eq_zero_iff.1 (by omega)
      obtain ⟨path, text, outcome⟩ := call
      obtain rfl : path = w.path := hcourse.path_of_call _ (List.mem_singleton_self _)
      obtain ⟨-, document, r, hm, -, rfl⟩ := (hcourse.call_iff text).1 ⟨outcome, List.mem_singleton_self _⟩
      have hchosen := Work.selection_eq_chosen hm.ending
      rw [((Grouping.mem_groups_iff ds _ _).1 (hx.group w hw)).2] at hchosen
      refine .inr ⟨document, r.after, outcome, (hx.kept w hw document).1 hm.loaded, ⟨?_, r, ?_, rfl⟩, rfl⟩
      · rw [← hchosen]; exact hm.ending
      · rw [← hchosen]; exact hm.apply
  · refine .inl ?_
    rw [← Journal.calls_about, hx.about_none fun w hw he => hp ⟨w, hw, he⟩]
    rfl

/-- Works that write by the default writer leave each place as it was, or with a text that was written
in full to a name of this place. -/
theorem chain_default {setup : Setup} {loader : Loader} (hwriter : setup.writer = defaultWriter loader)
    {start : FileTree} (works : List Work) : ∀ final, Chain setup start works final → ∀ place,
      final.node? place = start.node? place ∨ ∃ w ∈ works, ∃ text,
        ⟨w.path, text, .ok ()⟩ ∈ (w.journal setup).calls ∧ final.place (loader.resolve w.path) = .ok place ∧
        final.node? place = some (.file (Codec.Utf8.encode text)) := by
  induction works using List.reverseRecOn with
  | nil =>
    intro final hchain place
    obtain rfl : final = start := hchain
    exact .inl rfl
  | append_singleton works v ih =>
    intro final hchain place
    obtain ⟨mid, hworks, rfl, rfl⟩ := chain_append.1 hchain
    have hbefore := ih _ hworks place
    have hkeep : v.after setup = v.tree → (v.after setup).node? place = start.node? place ∨ ∃ w ∈ works ++ [v], ∃ text,
        ⟨w.path, text, .ok ()⟩ ∈ (w.journal setup).calls ∧ (v.after setup).place (loader.resolve w.path) = .ok place ∧
        (v.after setup).node? place = some (.file (Codec.Utf8.encode text)) := by
      intro hsame
      rw [hsame]
      exact hbefore.imp_right fun ⟨w, hw, hrest⟩ => ⟨w, List.mem_append_left _ hw, hrest⟩
    rcases v.write_cases setup with ⟨-, hsame⟩ | ⟨document, new, -, hcalls, hafter⟩
    · exact hkeep hsame
    rw [hwriter] at hcalls hafter
    rcases defaultWriter_cases loader v.tree v.path new with ⟨there, hp, hn, hok, htree⟩ | ⟨failure, -, htree⟩
    · rw [hafter, htree]
      rw [hok] at hcalls
      have hkeeps := FileTree.keeps_set hn (.file (Codec.Utf8.encode new))
      rw [FileTree.node?_set (FileTree.ne_nil_of_node? hn)]
      by_cases he : there = place
      · subst he
        exact .inr ⟨v, by simp, new, by rw [hcalls]; exact List.mem_singleton_self _, hkeeps.place hp, if_pos rfl⟩
      · rw [if_neg he]
        exact hbefore.imp_right fun ⟨w, hw, text, hcall, hplace, hnode⟩ =>
          ⟨w, List.mem_append_left _ hw, text, hcall, hkeeps.place hplace, hnode⟩
    · exact hkeep (hafter.trans htree)

/-! ## Cancelled runs -/

section Runs

variable {setup : Setup} {schedule : List Turn} {ws : Workspace} {ds : List Diagnostic}

theorem filesRun_sequential
    (hseq : isPooled setup.options setup.oracle (Grouping.ofDiagnostics ds).groups.length = false) :
    filesRun setup schedule ws ds = sequential setup ws 0 (Grouping.ofDiagnostics ds).groups := by
  rw [filesRun, if_neg (by rw [hseq]; decide)]

/-- A sequential run is cancelled exactly if some file was not processed to its end. -/
theorem cancelled_iff
    (hseq : isPooled setup.options setup.oracle (Grouping.ofDiagnostics ds).groups.length = false) :
    (overFindings setup schedule ws ds).1.cancelled = true ↔
      ∃ path ∈ (Grouping.ofDiagnostics ds).groups.keys, ∀ r ∈ (filesRun setup schedule ws ds).results, r.path ≠ path := by
  obtain ⟨⟨undone, hkeys⟩, hnone⟩ := results_sequential setup (Grouping.ofDiagnostics ds).groups ws 0
  rw [cancelled_overFindings, filesRun_sequential hseq, Option.isSome_iff_ne_none, ne_eq, hnone]
  have hnodup := Grouping.nodup_groups ds
  rw [← hkeys] at hnodup ⊢
  constructor
  · intro hne
    obtain ⟨path, more, rfl⟩ := List.exists_cons_of_ne_nil (fun he => hne (by rw [he, List.append_nil]) : undone ≠ [])
    refine ⟨path, by simp, fun r hr hpath => ?_⟩
    exact (List.nodup_append.1 hnodup).2.2 r.path (List.mem_map_of_mem hr) path (List.mem_cons_self ..) hpath
  · rintro ⟨path, hmem, hno⟩ heq
    rw [← heq] at hmem
    obtain ⟨r, hr, hpath⟩ := List.mem_map.1 hmem
    exact hno r hr hpath

/-- A run whose token is set before it starts or in the course of a query, and which takes one file
after the other. -/
theorem cancellation_cuts {k : Nat} (hk : setup.token = Token.afterQueries k)
    (hseq : isPooled setup.options setup.oracle (Grouping.ofDiagnostics ds).groups.length = false) :
    (overFindings setup schedule ws ds).2.1.events <+:
      (overFindings (setup.withToken Token.never) schedule ws ds).2.1.events ∧
    (overFindings setup schedule ws ds).2.1.calls <+:
      (overFindings (setup.withToken Token.never) schedule ws ds).2.1.calls ∧
    (overFindings setup schedule ws ds).2.1.queries =
      (overFindings (setup.withToken Token.never) schedule ws ds).2.1.queries.take k ∧
    (∀ path, (overFindings setup schedule ws ds).2.1.calls.filter (·.path = path) = [] ∨
      ∃ document text outcome, (overFindings setup schedule ws ds).2.2.loader.kept? path = some document ∧
        MergesTo setup ds path document text ∧
        (overFindings setup schedule ws ds).2.1.calls.filter (·.path = path) = [⟨path, text, outcome⟩]) ∧
    (setup.writer = defaultWriter ws.loader → ∀ place,
      (overFindings setup schedule ws ds).2.2.tree.node? place = ws.tree.node? place ∨
      ∃ path text, ⟨path, text, .ok ()⟩ ∈ (overFindings setup schedule ws ds).2.1.calls ∧
        (overFindings setup schedule ws ds).2.2.tree.place (ws.loader.resolve path) = .ok place ∧
        (overFindings setup schedule ws ds).2.2.tree.node? place = some (.file (Codec.Utf8.encode text))) ∧
    ((overFindings setup schedule ws ds).1.cancelled = true ↔
      ∃ path ∈ (Grouping.ofDiagnostics ds).groups.keys, ∀ r ∈ (filesRun setup schedule ws ds).results, r.path ≠ path) ∧
    ((overFindings setup schedule ws ds).1.cancelled = false →
      (overFindings setup schedule ws ds).1 = (overFindings (setup.withToken Token.never) schedule ws ds).1) := by
  have hrun : filesRun setup schedule ws ds = _ := filesRun_sequential hseq
  have hfull : filesRun (setup.withToken Token.never) schedule ws ds = _ := filesRun_sequential hseq
  have hcut := sequential_cut setup (Grouping.ofDiagnostics ds).groups ws 0
  rw [← hrun, ← hfull] at hcut
  have hbegins : (filesRun setup schedule ws ds).journal <+:
      (filesRun (setup.withToken Token.never) schedule ws ds).journal := by
    rcases hcut with heq | ⟨-, hstop⟩
    · simp only [heq, List.prefix_refl]
    · exact hstop.begins
  refine ⟨?_, ?_, ?_, calls_complete setup schedule ws ds, ?_, cancelled_iff hseq, ?_⟩
  · rw [events_overFindings, events_overFindings]
    exact (List.prefix_append_right_inj _).2 (hbegins.filterMap _)
  · rw [calls_overFindings, calls_overFindings]
    exact hbegins.filterMap _
  · rw [queries_overFindings, queries_overFindings]
    have hmost := sequential_queries_le hk (Grouping.ofDiagnostics ds).groups ws 0 (Nat.zero_le k)
    rw [← hrun, Nat.zero_add] at hmost
    rcases hcut with heq | ⟨-, hstop⟩
    · rw [← heq, List.take_of_length_le hmost]
    · obtain ⟨look, hset, hlook⟩ := hstop.look
      rw [hk] at hset
      have hleast : k ≤ look.asked := of_decide_eq_true hset
      have hfirst : (filesRun setup schedule ws ds).journal.queries <+:
          (filesRun (setup.withToken Token.never) schedule ws ds).journal.queries := hbegins.filterMap _
      have hlength : (filesRun setup schedule ws ds).journal.queries.length = k := by omega
      rw [← hlength]
      exact List.prefix_iff_eq_take.1 hfirst
  · intro hwriter place
    obtain ⟨works, hx⟩ := explains_filesRun setup schedule ws ds
    rw [workspace_overFindings, calls_overFindings]
    refine (chain_default hwriter works _ hx.chain place).imp_right fun ⟨w, hw, text, hcall, hrest⟩ =>
      ⟨w.path, text, ?_, hrest⟩
    rw [← hx.calls_work hw] at hcall
    exact (List.mem_filter.1 hcall).1
  · intro hno
    rw [cancelled_overFindings] at hno
    rcases hcut with heq | ⟨hstopped, -⟩
    · rw [summary_overFindings, summary_overFindings, heq]
    · exact absurd (Option.isSome_eq_false_iff.1 hno) (by simpa using hstopped)

end Runs

/-- The run is stopped in the course of the only query on its first file: that file is written, and the
other is not turned to. -/
theorem sample_cancellation :
    (overFindings (sampleSetup.withToken (.afterQueries 1)) [] sampleWorkspace pairOfFindings).1.writtenPaths = ["a"] ∧
    (overFindings (sampleSetup.withToken (.afterQueries 1)) [] sampleWorkspace pairOfFindings).2.1.queries =
      (overFindings (sampleSetup.withToken .never) [] sampleWorkspace pairOfFindings).2.1.queries.take 1 ∧
    ∃ path ∈ (Grouping.ofDiagnostics pairOfFindings).groups.keys,
      ∀ r ∈ (filesRun (sampleSetup.withToken (.afterQueries 1)) [] sampleWorkspace pairOfFindings).results,
        r.path ≠ path := by
  obtain ⟨-, -, hqueries, -, -, hcancelled, -⟩ := @cancellation_cuts (sampleSetup.withToken (.afterQueries 1)) []
    sampleWorkspace pairOfFindings 1 rfl (by decide)
  exact ⟨by decide +kernel, hqueries, hcancelled.1 (by decide +kernel)⟩

end Amend.Run
