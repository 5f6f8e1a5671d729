/-
A pool of workers changes nothing. If the files of a run do not get into each other's way, then the
work on each of them is the one that would be done if there were no others: whatever was written
before, its document is loaded with the same text and it is written with the same success. So
neither the number of workers nor the order of their steps shows in the summary or in what is
written.
-/
import Amend.Proofs.Files.Tree
import Amend.Proofs.Run.Report

namespace Amend.Run

/-! ## Files that are apart -/

/-- The trees that writing to other files of a run leads to, of those that can be loaded at all. -/
inductive Disturbed (writer : Writer) (ws : Workspace) (paths : List String) (path : String) : FileTree → Prop
  | start : Disturbed writer ws paths path ws.tree
  | write {tree : FileTree} {other : String} {document : Document} (content : String)
      (h : Disturbed writer ws paths path tree) (ho : other ∈ paths) (hne : other ≠ path)
      (hl : (ws.loader.load ws.tree other).1 = .ok document) :
      Disturbed writer ws paths path (writer.write tree other content).tree

/-- Files that do not get into each other's way: writing to some changes neither the text of another
nor whether it can be written. -/
structure Apart (writer : Writer) (ws : Workspace) (paths : List String) : Prop where
  fetch : ∀ path ∈ paths, ∀ tree, Disturbed writer ws paths path tree →
    ws.loader.fetch tree path = ws.loader.fetch ws.tree path
  write : ∀ path ∈ paths, ∀ tree, Disturbed writer ws paths path tree → ∀ content,
    (writer.write tree path content).result = (writer.write ws.tree path content).result

/-- Writing to some files does not change the text of another. -/
def Steady (writer : Writer) (ws : Workspace) (paths : List String) : Prop :=
  ∀ path ∈ paths, ∀ tree, Disturbed writer ws paths path tree →
    ws.loader.fetch tree path = ws.loader.fetch ws.tree path

theorem Steady.load {writer : Writer} {ws : Workspace} {paths : List String} (hs : Steady writer ws paths)
    {path : String} (hp : path ∈ paths) {tree : FileTree} (ht : Disturbed writer ws paths path tree) :
    (ws.loader.load tree path).1 = (ws.loader.load ws.tree path).1 :=
  Loader.load_congr rfl (hs path hp tree ht)

/-- A writer that leaves the files alone keeps them apart. -/
theorem apart_toMemory (refusal : String → Option Failure) (ws : Workspace) (paths : List String) :
    Apart (Writer.toMemory refusal) ws paths := by
  have hsame : ∀ path tree, Disturbed (Writer.toMemory refusal) ws paths path tree → tree = ws.tree := by
    intro path tree h
    induction h with
    | start => rfl
    | write _ _ _ _ _ ih => exact ih
  exact ⟨fun path _ tree h => by rw [hsame path tree h], fun path _ tree h _ => by rw [hsame path tree h]⟩

section ToFiles

variable {ws : Workspace} {paths : List String} {codecs : Codecs} {encoding : String}

/-- What stands fast while other files are written: the shape of the tree, and every node that is not
one of theirs. -/
theorem disturbed_toFiles (hthere : ∀ path ∈ paths, ∀ document, (ws.loader.load ws.tree path).1 = .ok document →
      ∃ bytes, ws.tree.read (ws.loader.resolve path) = .ok bytes) {path : String} {tree : FileTree}
    (h : Disturbed (Writer.toFiles codecs ws.loader.resolve encoding) ws paths path tree) :
    FileTree.SameShape ws.tree tree ∧ ∀ place, (∀ other ∈ paths, other ≠ path →
      ws.tree.place (ws.loader.resolve other) ≠ .ok place) → tree.node? place = ws.tree.node? place := by
  induction h with
  | start => exact ⟨FileTree.SameShape.refl _, fun _ _ => rfl⟩
  | @write tree other document content _ ho hne hl ih =>
    obtain ⟨hshape, hnode⟩ := ih
    have htree : ((Writer.toFiles codecs ws.loader.resolve encoding).write tree other content).tree =
        (writeText codecs tree other (ws.loader.resolve other) encoding content).2 := by
      simp only [Writer.toFiles]
      split <;> rfl
    rw [htree]
    rcases writeText_tree codecs tree other (ws.loader.resolve other) encoding content with hsame | ⟨place, new, hp, hn, hset⟩
    · rw [hsame]
      exact ⟨hshape, hnode⟩
    · obtain ⟨bytes, hread⟩ := hthere other ho document hl
      rw [hshape.place] at hp
      -- the node of the other file is a file from the start, so it is one now
      have hfile : ∃ old, tree.node? place = some (.file old) := by
        rcases hold : tree.node? place with _ | node
        · rw [hshape.none place] at hold
          simp [FileTree.read, hp, hold, bind, Except.bind] at hread
        · cases node with
          | folder => exact absurd hold hn
          | file old => exact ⟨old, rfl⟩
      obtain ⟨old, hold⟩ := hfile
      rw [hset]
      refine ⟨hshape.trans (FileTree.sameShape_set hold new), fun there hthere' => ?_⟩
      rw [FileTree.node?_set (FileTree.ne_nil_of_node? hn), if_neg]
      · exact hnode there hthere'
      · rintro rfl
        exact hthere' other ho hne hp

/-- Different names of different files are apart for a writer that writes to the files, if the files
that can be loaded are there. -/
theorem apart_toFiles (hthere : ∀ path ∈ paths, ∀ document, (ws.loader.load ws.tree path).1 = .ok document →
      ∃ bytes, ws.tree.read (ws.loader.resolve path) = .ok bytes)
    (hdistinct : ∀ path ∈ paths, ∀ other ∈ paths, other ≠ path → ∀ place,
      ws.tree.place (ws.loader.resolve path) = .ok place → ws.tree.place (ws.loader.resolve other) ≠ .ok place) :
    Apart (Writer.toFiles codecs ws.loader.resolve encoding) ws paths := by
  constructor
  · intro path hp tree h
    obtain ⟨hshape, hnode⟩ := disturbed_toFiles hthere h
    have hread : tree.read (ws.loader.resolve path) = ws.tree.read (ws.loader.resolve path) := by
      unfold FileTree.read
      rw [hshape.place]
      rcases hplace : ws.tree.place (ws.loader.resolve path) with fault | place
      · rfl
      · simp only [bind, Except.bind]
        rw [hnode place fun other ho hne => hdistinct path hp other ho hne place hplace]
    unfold Loader.fetch
    rw [hread]
  · intro path hp tree h content
    have hresult := writeText_result codecs (disturbed_toFiles hthere h).1 path (ws.loader.resolve path) encoding content
    simp only [Writer.toFiles, hresult]
    split <;> rfl

end ToFiles

/-! ## Works that do not notice each other -/

section Undisturbed

variable {setup : Setup} {ws : Workspace} {groups : Table String (List Diagnostic)} {works : List Work}
  {files : FilesRun}

/-- Up to any time in a run, all documents are those of the start, and a file that has not come to
writing yet finds the files disturbed at most by others. -/
theorem undisturbed (hx : Explains setup ws groups works files) (hs : Steady setup.writer ws groups.keys)
    (before : List Work) : before <+: works → ∀ earlier, earlier <+: before → ∀ tree, Chain setup ws.tree earlier tree →
      (∀ w ∈ earlier, w.loaded = (ws.loader.load ws.tree w.path).1) ∧
      ∀ path, (∀ w ∈ earlier, w.path ≠ path) → Disturbed setup.writer ws groups.keys path tree := by
  -- for all earlier times at once: a work may have loaded its document long before it wrote
  induction before using List.reverseRecOn with
  | nil =>
    intro _ earlier he tree hc
    obtain rfl := List.prefix_nil.1 he
    obtain rfl : tree = ws.tree := hc
    exact ⟨by simp, fun _ _ => .start⟩
  | append_singleton before v ih =>
    intro hpre earlier he tree hc
    have hbefore : before <+: works := (List.prefix_append before [v]).trans hpre
    rcases List.prefix_concat_iff.1 he with rfl | he
    · obtain ⟨mid, hchain, rfl, rfl⟩ := chain_append.1 hc
      obtain ⟨later, hworks⟩ := hpre
      have hsplit : works = before ++ v :: later := by rw [← hworks]; simp
      have hv : v ∈ works := by rw [hsplit]; simp
      have hkey : v.path ∈ groups.keys := List.mem_map_of_mem (hx.group v hv)
      have hfresh : ∀ w ∈ before, w.path ≠ v.path := by
        have hn := hx.nodup
        rw [hsplit, List.map_append, List.map_cons, List.nodup_append] at hn
        exact fun w hw => hn.2.2 w.path (List.mem_map_of_mem hw) v.path (List.mem_cons_self ..)
      obtain ⟨hloads, hdisturbed⟩ := ih hbefore before (List.prefix_refl _) v.tree hchain
      obtain ⟨first, tree', hfirst, hchain', hload⟩ := hx.loads before v later hsplit
      have hstart : v.loaded = (ws.loader.load ws.tree v.path).1 := by
        obtain ⟨-, hdist⟩ := ih hbefore first hfirst tree' hchain'
        rw [hload, hs.load hkey (hdist v.path fun w hw => hfresh w (hfirst.subset hw))]
      refine ⟨fun w hw => ?_, fun path hp => ?_⟩
      · rcases List.mem_append.1 hw with hw | hw
        · exact hloads w hw
        · rw [List.mem_singleton.1 hw]; exact hstart
      · have hmid := hdisturbed path fun w hw => hp w (List.mem_append_left _ hw)
        rcases v.write_cases setup with ⟨-, hsame⟩ | ⟨document, content, hl, -, hafter⟩
        · rw [hsame]; exact hmid
        · rw [hafter]
          exact .write content hmid hkey (hp v (by simp)) (hstart ▸ hl)
    · exact ih hbefore earlier he tree hc

/-- A file has the text that it had at the start, and when it comes to writing others at most were
written before. -/
theorem Explains.steady (hx : Explains setup ws groups works files) (hs : Steady setup.writer ws groups.keys)
    {w : Work} (hw : w ∈ works) :
    w.loaded = (ws.loader.load ws.tree w.path).1 ∧ Disturbed setup.writer ws groups.keys w.path w.tree := by
  obtain ⟨before, later, rfl⟩ := List.append_of_mem hw
  obtain ⟨mid, hchain, hrest⟩ := chain_append.1 hx.chain
  obtain ⟨rfl, -⟩ := hrest
  have hsnoc : Chain setup ws.tree (before ++ [w]) (w.after setup) := hchain.snoc
  have hpre : before ++ [w] <+: before ++ w :: later := ⟨later, by simp⟩
  have hfresh : ∀ v ∈ before, v.path ≠ w.path := by
    have hn := hx.nodup
    rw [List.map_append, List.map_cons, List.nodup_append] at hn
    exact fun v hv => hn.2.2 v.path (List.mem_map_of_mem hv) w.path (List.mem_cons_self ..)
  exact ⟨(undisturbed hx hs _ hpre _ (List.prefix_refl _) _ hsnoc).1 w (by simp),
    (undisturbed hx hs _ hpre before (List.prefix_append ..) _ hchain).2 w.path hfresh⟩

/-- The work on a file is the one that would be done if there were no other files. -/
theorem Explains.alone (hx : Explains setup ws groups works files) (hu : Uncancelled setup)
    (ha : Apart setup.writer ws groups.keys) {w : Work} (hw : w ∈ works) :
    (w.journal setup).events = ((Work.inOneGo ws 0 w.path w.findings).journal setup).events ∧
    (w.journal setup).calls = ((Work.inOneGo ws 0 w.path w.findings).journal setup).calls ∧
    w.result setup = (Work.inOneGo ws 0 w.path w.findings).result setup := by
  obtain ⟨hload, htree⟩ := hx.steady ha.fetch hw
  have hplan : w.plan setup = (Work.inOneGo ws 0 w.path w.findings).plan setup :=
    Work.plan_congr hu.token rfl rfl hload
  exact Work.congr rfl hplan fun content =>
    ha.write w.path (List.mem_map_of_mem (hx.group w hw)) w.tree htree content

/-- The entry of a file is that of its work without any other. -/
theorem Explains.entry_alone (hx : Explains setup ws groups works files) (hu : Uncancelled setup)
    (ha : Apart setup.writer ws groups.keys) {w : Work} (hw : w ∈ works) :
    w.entryOf setup = (Work.inOneGo ws 0 w.path w.findings).entryOf setup := by
  obtain ⟨hevents, -, hresult⟩ := hx.alone hu ha hw
  unfold Work.entryOf
  rw [hevents, hresult]
  rfl

end Undisturbed

/-! ## Any number of workers -/

/-- The same run with another number of workers. -/
def Setup.withWorkers (setup : Setup) (n : Int) : Setup :=
  { setup with options := { setup.options with workers := n } }

section AnyWorkers

variable {setup : Setup} {ws : Workspace} {ds : List Diagnostic}

/-- The summary of a run is made up of what becomes of each file without the others. -/
theorem summary_alone (hu : Uncancelled setup) (ha : Apart setup.writer ws (Grouping.ofDiagnostics ds).groups.keys)
    (schedule : List Turn) :
    (overFindings setup schedule ws ds).1 = ⟨(Grouping.ofDiagnostics ds).groups.filterMap fun row =>
      ((Work.inOneGo ws 0 row.1 row.2).entryOf setup).map (row.1, ·), missingEvents ds, false⟩ := by
  obtain ⟨works, hx⟩ := explains_filesRun setup schedule ws ds
  obtain ⟨hnone, hrows⟩ := hx.all hu
  have hpre := path_of_mem_missingEvents ds
  rw [summary_overFindings]
  have hfiles : (summarize (Grouping.ofDiagnostics ds).groups.keys
      (missingEvents ds ++ (filesRun setup schedule ws ds).journal.events) (filesRun setup schedule ws ds)).files =
      (Grouping.ofDiagnostics ds).groups.filterMap fun row =>
        ((Work.inOneGo ws 0 row.1 row.2).entryOf setup).map (row.1, ·) := by
    rw [files_summarize hx hpre, Table.keys, List.filterMap_map]
    refine List.filterMap_congr fun row hrow => ?_
    obtain ⟨w, hw, rfl⟩ := hrows row hrow
    simp only [Function.comp]
    rw [hx.entry_work hw, hx.entry_alone hu ha hw]
  have hcancelled : (summarize (Grouping.ofDiagnostics ds).groups.keys
      (missingEvents ds ++ (filesRun setup schedule ws ds).journal.events)
      (filesRun setup schedule ws ds)).cancelled = false := by
    show (filesRun setup schedule ws ds).interrupted.isSome = false
    rw [hnone]; rfl
  have hunresolved := unresolved_summarize hx hpre
  generalize summarize _ _ (filesRun setup schedule ws ds) = summary at hfiles hcancelled hunresolved ⊢
  obtain ⟨files, unresolved, cancelled⟩ := summary
  simp only at hfiles hcancelled hunresolved
  rw [hfiles, hcancelled, hunresolved]

/-- What is written to a file is what is written to it without the others. -/
theorem calls_alone (hu : Uncancelled setup) (ha : Apart setup.writer ws (Grouping.ofDiagnostics ds).groups.keys)
    (schedule : List Turn) (path : String) :
    (overFindings setup schedule ws ds).2.1.calls.filter (·.path = path) =
      if findingsOf path ds = [] then []
      else ((Work.inOneGo ws 0 path (findingsOf path ds)).journal setup).calls := by
  obtain ⟨works, hx⟩ := explains_filesRun setup schedule ws ds
  rw [calls_overFindings]
  split
  · rename_i hempty
    have hnone : ∀ w ∈ works, w.path ≠ path := by
      rintro w hw rfl
      exact ((Grouping.mem_groups_iff ds _ _).1 (hx.group w hw)).1 hempty
    rw [← Journal.calls_about, hx.about_none hnone]
    rfl
  · rename_i hne
    obtain ⟨w, hw, he⟩ := (hx.all hu).2 _ ((Grouping.mem_groups_iff ds path _).2 ⟨hne, rfl⟩)
    obtain ⟨rfl, hfs⟩ := Prod.mk.inj he
    rw [hx.calls_work hw, (hx.alone hu ha hw).2.1, hfs]

/-- A pool of workers changes nothing, whatever order they take turns in: the summary, and what is
written to each file, are those of the run that takes the files one after the other. -/
theorem workers_change_nothing (hu : Uncancelled setup)
    (ha : Apart setup.writer ws (Grouping.ofDiagnostics ds).groups.keys) (n : Int) (schedule : List Turn) :
    (overFindings (setup.withWorkers n) schedule ws ds).1 = (overFindings (setup.withWorkers 1) [] ws ds).1 ∧
    ∀ path, (overFindings (setup.withWorkers n) schedule ws ds).2.1.calls.filter (·.path = path) =
      (overFindings (setup.withWorkers 1) [] ws ds).2.1.calls.filter (·.path = path) := by
  have hu' : ∀ m, Uncancelled (setup.withWorkers m) := fun m => ⟨hu.token, hu.rules, hu.writer⟩
  constructor
  · rw [summary_alone (hu' n) ha, summary_alone (hu' 1) ha]
    rfl
  · intro path
    rw [calls_alone (hu' n) ha, calls_alone (hu' 1) ha]
    rfl

end AnyWorkers

/-! ### Two workers on two files -/

theorem sample_apart : Apart sampleSetup.writer sampleWorkspace (Grouping.ofDiagnostics sampleFindings).groups.keys := by
  have hkeys : (Grouping.ofDiagnostics sampleFindings).groups.keys = ["a", "b"] := by decide
  have hwriter : sampleSetup.writer =
      Writer.toFiles sampleWorkspace.loader.codecs sampleWorkspace.loader.resolve "utf-8" := rfl
  rw [hkeys, hwriter]
  have ha : sampleWorkspace.tree.place (sampleWorkspace.loader.resolve "a") = .ok ["a"] := by decide
  have hb : sampleWorkspace.tree.place (sampleWorkspace.loader.resolve "b") = .ok ["b"] := by decide
  refine apart_toFiles (fun path hp _ _ => ?_) fun path hp other ho hne place h h' => ?_
  · rcases List.mem_pair.1 hp with rfl | rfl
    · exact ⟨[49, 50], by decide⟩
    · exact ⟨[51, 52], by decide⟩
  · rcases List.mem_pair.1 hp with rfl | rfl <;> rcases List.mem_pair.1 ho with rfl | rfl
    · exact hne rfl
    · exact absurd (ha.symm.trans (h.trans (h'.symm.trans hb))) (by decide)
    · exact absurd (hb.symm.trans (h.trans (h'.symm.trans ha))) (by decide)
    · exact hne rfl

theorem sample_workers_change_nothing :
    isPooled (sampleSetup.withWorkers 2).options sampleSetup.oracle (Grouping.ofDiagnostics sampleFindings).groups.length = true ∧
    (overFindings (sampleSetup.withWorkers 2) ([1, 0, 1, 1, 0].map .work) sampleWorkspace sampleFindings).1 =
      (overFindings (sampleSetup.withWorkers 1) [] sampleWorkspace sampleFindings).1 :=
  ⟨by decide, (workers_change_nothing sample_uncancelled sample_apart 2 ([1, 0, 1, 1, 0].map .work)).1⟩

end Amend.Run
