/-
The account of a run. Whatever workers there are and whatever order they take turns in, what a run
did is a list of works, one for each file it turned to, in the order in which they came to writing:
each wrote to the files that the one before left, and loaded its document at some time before. The
journal has about each file what its work said, and the results are those of the works.
-/
import Amend.Run.Pool
import Amend.Proofs.Files.Loader
import Amend.Proofs.Run.Work
import Amend.Proofs.Table

namespace Amend.Run

/-! ## Works one after the other -/

/-- The files that works lead to, each writing to those that the one before left. -/
def Chain (setup : Setup) : FileTree → List Work → FileTree → Prop
  | start, [], final => final = start
  | start, w :: rest, final => w.tree = start ∧ Chain setup (w.after setup) rest final

theorem chain_append {setup : Setup} {works others : List Work} : ∀ {start final : FileTree},
    Chain setup start (works ++ others) final ↔ ∃ mid, Chain setup start works mid ∧ Chain setup mid others final := by
  induction works with
  | nil => intro start final; simp [Chain]
  | cons w rest ih =>
    intro start final
    simp only [List.cons_append, Chain, ih]
    constructor
    · rintro ⟨ht, mid, h1, h2⟩
      exact ⟨mid, ⟨ht, h1⟩, h2⟩
    · rintro ⟨mid, ⟨ht, h1⟩, h2⟩
      exact ⟨ht, mid, h1, h2⟩

theorem Chain.snoc {setup : Setup} {start : FileTree} {works : List Work} {w : Work}
    (h : Chain setup start works w.tree) : Chain setup start (works ++ [w]) (w.after setup) :=
  chain_append.2 ⟨w.tree, h, rfl, rfl⟩

/-! ## Accounts -/

/-- What a list of works says on how a run over groups came to be as it is. -/
structure Explains (setup : Setup) (ws : Workspace) (groups : Table String (List Diagnostic)) (works : List Work)
    (files : FilesRun) : Prop where
  chain : Chain setup ws.tree works files.workspace.tree
  nodup : (works.map (·.path)).Nodup
  group : ∀ w ∈ works, (w.path, w.findings) ∈ groups
  /-- A document was loaded before its file, but maybe after others, came to writing. -/
  loads : ∀ before w later, works = before ++ w :: later → ∃ earlier tree, earlier <+: before ∧
    Chain setup ws.tree earlier tree ∧ w.loaded = (ws.loader.load tree w.path).1
  kept : ∀ w ∈ works, ∀ document, w.loaded = .ok document ↔ files.workspace.loader.kept? w.path = some document
  frame : ∀ path, (∀ w ∈ works, w.path ≠ path) → files.workspace.loader.kept? path = ws.loader.kept? path
  about : ∀ path, files.journal.about path = Journal.about path (works.flatMap (·.journal setup))
  loose : ∀ e ∈ files.journal.events, e.path ≠ none
  results : ∀ r, r ∈ files.results ↔ ∃ w ∈ works, w.result setup = .ok r
  nodupResults : (files.results.map (·.path)).Nodup
  interrupted : ∀ path, path ∈ files.interrupted.getD [] ↔
    ∃ w ∈ works, w.path = path ∧ ∃ failure, w.result setup = .error failure
  nodupInterrupted : (files.interrupted.getD []).Nodup
  /-- A run that nothing cancels turns to every file. -/
  all : Uncancelled setup → files.interrupted = none ∧ ∀ row ∈ groups, ∃ w ∈ works, (w.path, w.findings) = row

/-- What works say about a file is said by those on this file. -/
theorem about_flatMap (setup : Setup) (works : List Work) (path : String) :
    Journal.about path (works.flatMap (·.journal setup)) =
      (works.filter (·.path = path)).flatMap fun w => Journal.about path (w.journal setup) := by
  induction works with
  | nil => rfl
  | cons w rest ih =>
    rw [List.flatMap_cons, Journal.about_append, ih]
    by_cases hp : w.path = path
    · rw [List.filter_cons_of_pos (by simpa using hp), List.flatMap_cons]
    · rw [List.filter_cons_of_neg (by simpa using hp), (w.confined setup).about_other (Ne.symm hp), List.nil_append]

namespace Explains

variable {setup : Setup} {ws : Workspace} {groups : Table String (List Diagnostic)} {works : List Work}
  {files : FilesRun}

/-- The journal has about a file what the work on it said. -/
theorem about_work (h : Explains setup ws groups works files) {w : Work} (hw : w ∈ works) :
    files.journal.about w.path = (w.journal setup).about w.path := by
  have hmine : works.filter (·.path = w.path) = [w] := by
    obtain ⟨before, later, rfl⟩ := List.append_of_mem hw
    have hn := h.nodup
    rw [List.map_append, List.map_cons, List.nodup_append] at hn
    obtain ⟨-, hlater, hbefore⟩ := hn
    rw [List.filter_append, List.filter_cons_of_pos (by simp), List.filter_eq_nil_iff.2, List.filter_eq_nil_iff.2]
    · rfl
    · intro v hv he
      exact (List.nodup_cons.1 hlater).1 (of_decide_eq_true he ▸ List.mem_map_of_mem hv)
    · intro v hv he
      exact hbefore v.path (List.mem_map_of_mem hv) w.path (List.mem_cons_self ..) (of_decide_eq_true he)
  rw [h.about, about_flatMap, hmine, List.flatMap_singleton]

/-- The journal has nothing about a file that the run did not turn to. -/
theorem about_none (h : Explains setup ws groups works files) {path : String} (hp : ∀ w ∈ works, w.path ≠ path) :
    files.journal.about path = [] := by
  have hmine : works.filter (·.path = path) = [] := List.filter_eq_nil_iff.2 fun w hw => by simpa using hp w hw
  rw [h.about, about_flatMap, hmine]
  rfl

end Explains

/-! ## Files one after the other -/

/-- The work on a file that is done in one go. -/
def Work.inOneGo (ws : Workspace) (asked : Nat) (path : String) (ds : List Diagnostic) : Work :=
  ⟨path, ds, asked, (ws.loader.load ws.tree path).1, ws.tree, fun _ h => ws.loader.load_path ws.tree path h⟩

theorem processFile_eq (setup : Setup) (ws : Workspace) (asked : Nat) (path : String) (ds : List Diagnostic) :
    processFile setup ws asked path ds =
      ⟨(Work.inOneGo ws asked path ds).journal setup, (Work.inOneGo ws asked path ds).result setup,
        ⟨(Work.inOneGo ws asked path ds).after setup, (ws.loader.load ws.tree path).2⟩⟩ := rfl

section Sequential

variable {setup : Setup} {ws : Workspace} {path : String} {ds : List Diagnostic}
  {rest : Table String (List Diagnostic)} {asked : Nat}

/-- A run that turns to no file, for there is none or the token is set. -/
theorem explains_nothing (groups : Table String (List Diagnostic)) (interrupted : Option (List String))
    (hi : interrupted.getD [] = []) (hall : Uncancelled setup → interrupted = none ∧ groups = []) :
    Explains setup ws groups [] ⟨[], [], interrupted, ws⟩ where
  chain := rfl
  nodup := List.nodup_nil
  group := by simp
  loads := by simp
  kept := by simp
  frame _ _ := rfl
  about _ := rfl
  loose := by simp
  results := by simp
  nodupResults := List.nodup_nil
  interrupted := by simp [hi]
  nodupInterrupted := by rw [hi]; exact List.nodup_nil
  all hu := ⟨(hall hu).1, by rw [(hall hu).2]; simp⟩

/-- A run that is cancelled in the middle of a file. -/
theorem explains_stopped {failure : Failure}
    (hr : (Work.inOneGo ws asked path ds).result setup = .error failure) :
    Explains setup ws ((path, ds) :: rest) [Work.inOneGo ws asked path ds]
      ⟨(Work.inOneGo ws asked path ds).journal setup, [], some [path],
        ⟨(Work.inOneGo ws asked path ds).after setup, (ws.loader.load ws.tree path).2⟩⟩ where
  chain := ⟨rfl, rfl⟩
  nodup := List.nodup_singleton _
  group := by simp [Work.inOneGo]
  loads := by
    intro before w later he
    rcases before with _ | ⟨b, before⟩
    · cases he
      exact ⟨[], ws.tree, List.nil_prefix, rfl, rfl⟩
    · simp at he
  kept := by
    intro w hw document
    rw [List.mem_singleton.1 hw]
    exact ws.loader.load_ok_iff ws.tree path document
  frame other ho := (ws.loader.load_frame ws.tree path).2 other (Ne.symm (ho _ (List.mem_singleton_self _)))
  about other := by simp
  loose e he := by
    rw [((Work.inOneGo ws asked path ds).confined setup).events e he]; simp
  results r := by simp [hr]
  nodupResults := List.nodup_nil
  interrupted other := by
    simp only [Option.getD_some, List.mem_singleton, exists_eq_left, hr]
    exact ⟨fun h => ⟨h.symm, failure, rfl⟩, fun h => h.1.symm⟩
  nodupInterrupted := List.nodup_singleton _
  all hu := by
    obtain ⟨r, hok⟩ := (course setup (Work.inOneGo ws asked path ds)).uncancelled hu
    rw [hr] at hok
    cases hok

/-- No work on other files is on the first. -/
theorem Explains.path_ne {works : List Work} {others : FilesRun} (h : Explains setup ws rest works others)
    (hp : path ∉ rest.keys) {w : Work} (hw : w ∈ works) : w.path ≠ path := by
  rintro rfl
  exact hp (List.mem_map_of_mem (h.group w hw))

/-- A run that comes through with its first file and goes on to the others. -/
theorem Explains.cons {works : List Work} {others : FilesRun} {result : FileResult}
    (h : Explains setup ⟨(Work.inOneGo ws asked path ds).after setup, (ws.loader.load ws.tree path).2⟩ rest works others)
    (hr : (Work.inOneGo ws asked path ds).result setup = .ok result) (hp : path ∉ rest.keys) :
    Explains setup ws ((path, ds) :: rest) (Work.inOneGo ws asked path ds :: works)
      { others with journal := (Work.inOneGo ws asked path ds).journal setup ++ others.journal
                    results := result :: others.results } where
  chain := ⟨rfl, h.chain⟩
  nodup := by
    refine List.nodup_cons.2 ⟨fun hm => ?_, h.nodup⟩
    obtain ⟨w, hw, he⟩ := List.mem_map.1 hm
    exact h.path_ne hp hw he
  group w hw := by
    rcases List.mem_cons.1 hw with rfl | hw
    · exact List.mem_cons_self ..
    · exact List.mem_cons_of_mem _ (h.group w hw)
  loads before w later he := by
    rcases before with _ | ⟨b, before⟩
    · cases he
      exact ⟨[], ws.tree, List.nil_prefix, rfl, rfl⟩
    · obtain ⟨rfl, htail⟩ := List.cons.inj he
      -- the others were loaded after the first file was kept, which has another name
      obtain ⟨earlier, tree, hpre, hchain, hl⟩ := h.loads before w later htail
      obtain ⟨halike, hother⟩ := ws.loader.load_frame ws.tree path
      have hne : w.path ≠ path := h.path_ne hp (by rw [htail]; simp)
      refine ⟨_ :: earlier, tree, (List.prefix_cons_inj _).2 hpre, ⟨rfl, hchain⟩, hl.trans ?_⟩
      exact Loader.load_congr (hother _ hne) (halike.fetch tree _)
  kept w hw document := by
    rcases List.mem_cons.1 hw with rfl | hw
    · exact (ws.loader.load_ok_iff ws.tree path document).trans (by rw [← h.frame _ fun w => h.path_ne hp]; rfl)
    · exact h.kept w hw document
  frame other ho := by
    have hne : path ≠ other := ho _ (List.mem_cons_self ..)
    rw [← (ws.loader.load_frame ws.tree path).2 other hne.symm]
    exact h.frame other fun w hw => ho w (List.mem_cons_of_mem _ hw)
  about other := by
    simp only [List.flatMap_cons, Journal.about_append, h.about other]
  loose e he := by
    rw [Journal.events_append, List.mem_append] at he
    rcases he with he | he
    · rw [((Work.inOneGo ws asked path ds).confined setup).events e he]; simp
    · exact h.loose e he
  results r := by
    simp only [List.mem_cons, h.results r, exists_eq_or_imp, hr, Except.ok.injEq, eq_comm]
  nodupResults := by
    refine List.nodup_cons.2 ⟨fun hm => ?_, h.nodupResults⟩
    obtain ⟨r, hmem, he⟩ := List.mem_map.1 hm
    obtain ⟨w, hw, hrw⟩ := (h.results r).1 hmem
    have hpath := (course setup (Work.inOneGo ws asked path ds)).path_of_result hr
    have hpath' := (course setup w).path_of_result hrw
    exact h.path_ne hp hw (hpath'.symm.trans (he.trans hpath))
  interrupted other := by
    simp only [List.mem_cons, h.interrupted other, exists_eq_or_imp, hr, reduceCtorEq, exists_false, and_false, false_or]
  nodupInterrupted := h.nodupInterrupted
  all hu := by
    obtain ⟨hi, hrows⟩ := h.all hu
    refine ⟨hi, fun row hrow => ?_⟩
    rcases List.mem_cons.1 hrow with rfl | hrow
    · exact ⟨_, List.mem_cons_self .., rfl⟩
    · obtain ⟨w, hw, he⟩ := hrows row hrow
      exact ⟨w, List.mem_cons_of_mem _ hw, he⟩

/-- A run over files one after the other has an account. -/
theorem explains_sequential (setup : Setup) (groups : Table String (List Diagnostic)) :
    ∀ (ws : Workspace) (asked : Nat), groups.keys.Nodup →
      ∃ works, Explains setup ws groups works (sequential setup ws asked groups) := by
  induction groups with
  | nil => exact fun ws asked _ => ⟨[], explains_nothing [] none rfl fun _ => ⟨rfl, rfl⟩⟩
  | cons row rest ih =>
    obtain ⟨path, ds⟩ := row
    intro ws asked hn
    obtain ⟨hp, hn⟩ : path ∉ Table.keys rest ∧ (Table.keys rest).Nodup := List.nodup_cons.1 hn
    unfold sequential
    by_cases hset : setup.token.isSet ⟨asked, path, none⟩ = true
    · rw [if_pos hset]
      refine ⟨[], explains_nothing _ (some []) rfl fun hu => ?_⟩
      rw [hu.token] at hset
      cases hset
    · rw [if_neg hset]
      simp only [processFile_eq]
      rcases hr : (Work.inOneGo ws asked path ds).result setup with failure | result
      · exact ⟨_, explains_stopped hr⟩
      · obtain ⟨works, h⟩ := ih ⟨(Work.inOneGo ws asked path ds).after setup, (ws.loader.load ws.tree path).2⟩
          (asked + (Journal.queries ((Work.inOneGo ws asked path ds).journal setup)).length) hn
        exact ⟨_, h.cons hr hp⟩

end Sequential

end Amend.Run
