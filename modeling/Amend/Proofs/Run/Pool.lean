/-
The account of a run by several workers. One invariant says how the work on each file stands:
waiting, planned, come to writing, delivered or withdrawn. A turn moves one file and leaves the
standing of all others as it was, so the invariant holds under every schedule; and since every
file is delivered or withdrawn in the end, so does the account.
-/
import Amend.Proofs.Run.Account

namespace Amend.Run

/-! ## Guards -/

theorem confined_nil (path : String) : Journal.Confined path [] :=
  ⟨by simp, by simp⟩

/-- A guard speaks of its own file. -/
theorem confined_guarded (path : String) (result : Except Failure FileResult) :
    Journal.Confined path (guarded path ([], result)).1 := by
  rcases result with failure | result
  · cases hc : failure.isCancelled with
    | true => rw [guarded_cancelled hc]; exact confined_nil path
    | false => rw [guarded_error hc]; exact ⟨by simp [fileError], by simp [fileError]⟩
  · exact confined_nil path

/-- A result that went through a guard goes through it unchanged. -/
theorem guarded_guarded (path : String) (done : Journal × Except Failure FileResult) :
    guarded path ([], (guarded path done).2) = ([], (guarded path done).2) := by
  obtain ⟨journal, failure | result⟩ := done
  · cases hc : failure.isCancelled with
    | true => rw [guarded_cancelled hc]; exact guarded_cancelled hc
    | false => rw [guarded_error hc]; rfl
  · rfl

namespace Pool

theorem stopped_append_ne_nil {arrived more : List (String × Except Failure FileResult)} (h : stopped arrived ≠ []) :
    stopped (arrived ++ more) ≠ [] := by
  unfold stopped at h ⊢
  rw [List.filterMap_append]
  exact List.append_ne_nil_of_left_ne_nil h _

/-! ## How the work on a file stands -/

/-- A document that was loaded at some time since the run began, `works` having come to writing by
now. -/
def LoadedBy (setup : Setup) (ws : Workspace) (works : List Work) (w : Work) : Prop :=
  ∃ earlier tree, earlier <+: works ∧ Chain setup ws.tree earlier tree ∧ w.loaded = (ws.loader.load tree w.path).1

theorem LoadedBy.mono {setup : Setup} {ws : Workspace} {works : List Work} {w : Work}
    (h : LoadedBy setup ws works w) (more : List Work) : LoadedBy setup ws (works ++ more) w := by
  obtain ⟨earlier, tree, hpre, hrest⟩ := h
  exact ⟨earlier, tree, hpre.trans (List.prefix_append ..), hrest⟩

/-- A task and the work on its file: its works that came to writing, what the journal has about the
file, the results that arrived and the document that is kept. -/
inductive Standing (setup : Setup) (ws : Workspace) (works : List Work) (task : Task) :
    List Work → Journal → List (String × Except Failure FileResult) → Option Document → Prop
  | waiting (hs : task.stage = .waiting) :
      Standing setup ws works task [] [] [] (ws.loader.kept? task.path)
  | planned (w : Work) (pending said : Journal) (content diff : String) (applied skipped : Nat)
      (kept : Option Document) (hs : task.stage = .speaking pending (.store content diff applied skipped))
      (hw : w.path = task.path ∧ w.findings = task.diagnostics) (hload : LoadedBy setup ws works w)
      (hkept : ∀ document, w.loaded = .ok document ↔ kept = some document)
      (hnext : (w.plan setup).next = .store content diff applied skipped)
      (hsaid : said ++ Journal.about task.path pending = Journal.about task.path (w.plan setup).journal)
      (hc : Journal.Confined task.path pending) :
      Standing setup ws works task [] said [] kept
  | performed (w : Work) (pending said : Journal) (result : Except Failure FileResult) (kept : Option Document)
      (hs : task.stage = .speaking pending (.finish result))
      (hkept : ∀ document, w.loaded = .ok document ↔ kept = some document)
      (hsaid : said ++ Journal.about task.path (pending ++ (guarded task.path ([], result)).1) =
        Journal.about task.path (w.journal setup))
      (hresult : w.result setup = (guarded task.path ([], result)).2) (hc : Journal.Confined task.path pending) :
      Standing setup ws works task [w] said [] kept
  | done (w : Work) (said : Journal) (result : Except Failure FileResult) (kept : Option Document)
      (hs : task.stage = .done result)
      (hkept : ∀ document, w.loaded = .ok document ↔ kept = some document)
      (hsaid : said = Journal.about task.path (w.journal setup)) (hresult : w.result setup = result) :
      Standing setup ws works task [w] said [(task.path, result)] kept
  | withdrawn (hs : task.stage = .withdrawn) :
      Standing setup ws works task [] [] [] (ws.loader.kept? task.path)

theorem Standing.mono {setup : Setup} {ws : Workspace} {works : List Work} {task : Task} {mine : List Work}
    {said : Journal} {arrived : List (String × Except Failure FileResult)} {kept : Option Document}
    (h : Standing setup ws works task mine said arrived kept) (more : List Work) :
    Standing setup ws (works ++ more) task mine said arrived kept := by
  cases h with
  | waiting hs => exact .waiting hs
  | planned w pending said content diff applied skipped kept hs hw hload hkept hnext hsaid hc =>
    exact .planned w pending said content diff applied skipped kept hs hw (hload.mono more) hkept hnext hsaid hc
  | performed w pending said result kept hs hkept hsaid hresult hc =>
    exact .performed w pending said result kept hs hkept hsaid hresult hc
  | done w said result kept hs hkept hsaid hresult => exact .done w said result kept hs hkept hsaid hresult
  | withdrawn hs => exact .withdrawn hs

section Inversion

variable {setup : Setup} {ws : Workspace} {works : List Work} {task : Task} {mine : List Work} {said : Journal}
  {arrived : List (String × Except Failure FileResult)} {kept : Option Document}

/-- Nothing is known of a file that waits or was withdrawn. -/
theorem Standing.of_idle (h : Standing setup ws works task mine said arrived kept)
    (hs : task.stage = .waiting ∨ task.stage = .withdrawn) :
    mine = [] ∧ said = [] ∧ arrived = [] ∧ kept = ws.loader.kept? task.path := by
  cases h with
  | waiting | withdrawn => exact ⟨rfl, rfl, rfl, rfl⟩
  | planned _ _ _ _ _ _ _ _ hs' | performed _ _ _ _ _ hs' | done _ _ _ _ hs' =>
    rw [hs'] at hs; rcases hs with hs | hs <;> cases hs

theorem Standing.of_store (h : Standing setup ws works task mine said arrived kept) {pending : Journal}
    {content diff : String} {applied skipped : Nat}
    (hs : task.stage = .speaking pending (.store content diff applied skipped)) :
    mine = [] ∧ arrived = [] ∧ ∃ w : Work, (w.path = task.path ∧ w.findings = task.diagnostics) ∧
      LoadedBy setup ws works w ∧ (∀ document, w.loaded = .ok document ↔ kept = some document) ∧
      (w.plan setup).next = .store content diff applied skipped ∧
      said ++ Journal.about task.path pending = Journal.about task.path (w.plan setup).journal ∧
      Journal.Confined task.path pending := by
  cases h with
  | planned w _ _ _ _ _ _ _ hs' hw hload hkept hnext hsaid hc =>
    rw [hs] at hs'; cases hs'
    exact ⟨rfl, rfl, w, hw, hload, hkept, hnext, hsaid, hc⟩
  | waiting hs' | performed _ _ _ _ _ hs' | done _ _ _ _ hs' | withdrawn hs' => rw [hs] at hs'; cases hs'

theorem Standing.of_finish (h : Standing setup ws works task mine said arrived kept) {pending : Journal}
    {result : Except Failure FileResult} (hs : task.stage = .speaking pending (.finish result)) :
    arrived = [] ∧ ∃ w : Work, mine = [w] ∧ (∀ document, w.loaded = .ok document ↔ kept = some document) ∧
      said ++ Journal.about task.path (pending ++ (guarded task.path ([], result)).1) =
        Journal.about task.path (w.journal setup) ∧
      w.result setup = (guarded task.path ([], result)).2 ∧ Journal.Confined task.path pending := by
  cases h with
  | performed w _ _ _ _ hs' hkept hsaid hresult hc =>
    rw [hs] at hs'; cases hs'
    exact ⟨rfl, w, rfl, hkept, hsaid, hresult, hc⟩
  | waiting hs' | planned _ _ _ _ _ _ _ _ hs' | done _ _ _ _ hs' | withdrawn hs' => rw [hs] at hs'; cases hs'

theorem Standing.of_done (h : Standing setup ws works task mine said arrived kept)
    {result : Except Failure FileResult} (hs : task.stage = .done result) :
    arrived = [(task.path, result)] ∧ ∃ w : Work, mine = [w] ∧
      (∀ document, w.loaded = .ok document ↔ kept = some document) ∧
      said = Journal.about task.path (w.journal setup) ∧ w.result setup = result := by
  cases h with
  | done w _ _ _ hs' hkept hsaid hresult =>
    rw [hs] at hs'; cases hs'
    exact ⟨rfl, w, rfl, hkept, hsaid, hresult⟩
  | waiting hs' | planned _ _ _ _ _ _ _ _ hs' | performed _ _ _ _ _ hs' | withdrawn hs' => rw [hs] at hs'; cases hs'

end Inversion

/-- What holds of a pool at any time, `works` having come to writing. -/
structure Sound (setup : Setup) (ws : Workspace) (groups : Table String (List Diagnostic)) (works : List Work)
    (pool : Pool) : Prop where
  rows : pool.tasks.map (fun task => (task.path, task.diagnostics)) = groups
  chain : Chain setup ws.tree works pool.workspace.tree
  group : ∀ w ∈ works, (w.path, w.findings) ∈ groups
  loads : ∀ before w later, works = before ++ w :: later → LoadedBy setup ws before w
  alike : pool.workspace.loader.Alike ws.loader
  standing : ∀ (j : Nat) (task : Task), pool.tasks[j]? = some task → Standing setup ws works task
    (works.filter (·.path = task.path)) (pool.journal.about task.path)
    (pool.finished.filter (·.1 = task.path)) (pool.workspace.loader.kept? task.path)
  others : ∀ path, path ∉ groups.keys → pool.journal.about path = [] ∧
    pool.workspace.loader.kept? path = ws.loader.kept? path ∧ ∀ row ∈ pool.finished, row.1 ≠ path
  loose : ∀ e ∈ pool.journal.events, e.path ≠ none
  withdrawal : ∀ task ∈ pool.tasks, task.stage = .withdrawn → stopped pool.finished ≠ []

theorem sound_start (setup : Setup) (ws : Workspace) (groups : Table String (List Diagnostic)) :
    Sound setup ws groups [] (start ws groups) where
  rows := by
    simp only [start, List.map_map]
    exact List.map_id groups
  chain := rfl
  group := by simp
  loads := by simp
  alike := .refl _
  standing j task hj := by
    refine .waiting ?_
    simp only [start, List.getElem?_map, Option.map_eq_some_iff] at hj
    obtain ⟨row, -, rfl⟩ := hj
    rfl
  others path _ := ⟨rfl, rfl, by simp [start]⟩
  loose := by simp [start]
  withdrawal task htask hs := by
    obtain ⟨row, -, rfl⟩ := List.mem_map.1 htask
    cases hs

/-! ## Moves -/

variable {setup : Setup} {ws : Workspace} {groups : Table String (List Diagnostic)} {works : List Work}
  {pool : Pool} {i : Nat} {task : Task}

theorem Sound.mem_keys (h : Sound setup ws groups works pool) (hi : pool.tasks[i]? = some task) :
    (task.path, task.diagnostics) ∈ groups := by
  rw [← h.rows]
  exact List.mem_map.2 ⟨task, List.mem_of_getElem? hi, rfl⟩

/-- Two tasks of a pool are about different files. -/
theorem Sound.path_ne (h : Sound setup ws groups works pool) (hn : groups.keys.Nodup) {j : Nat} {other : Task}
    (hi : pool.tasks[i]? = some task) (hj : pool.tasks[j]? = some other) (hij : i ≠ j) : other.path ≠ task.path := by
  intro he
  have hkeys : groups.keys = pool.tasks.map (·.path) := by
    rw [← h.rows]
    simp [Table.keys]
  rw [hkeys] at hn
  have hi' : (pool.tasks.map (·.path))[i]? = some task.path := by simp [hi]
  have hj' : (pool.tasks.map (·.path))[j]? = some task.path := by simp [hj, he]
  have hlt : i < (pool.tasks.map (·.path)).length := (List.getElem?_eq_some_iff.1 hi').1
  exact hij (List.getElem?_inj hlt hn |>.1 (hi'.trans hj'.symm))

/-- A step leaves all tasks with their files and findings. -/
theorem rows_modify (tasks : List Task) (i : Nat) (stage : Stage) :
    (tasks.modify i fun task => { task with stage := stage }).map (fun task => (task.path, task.diagnostics)) =
      tasks.map fun task => (task.path, task.diagnostics) := by
  refine List.ext_getElem? fun j => ?_
  simp only [List.getElem?_map, List.getElem?_modify]
  by_cases hij : i = j
  · cases tasks[j]? <;> simp [hij]
  · simp [hij]

section Added

variable {α : Type} {items more : List α} {key : α → String} {path : String}

/-- Items of one key, added to others, are all found under this key. -/
theorem filter_append_self (h : ∀ a ∈ more, key a = path) :
    (items ++ more).filter (key · = path) = items.filter (key · = path) ++ more := by
  rw [List.filter_append, List.filter_eq_self.2 fun a ha => decide_eq_true (h a ha)]

/-- Items of one key, added to others, are not found under another key. -/
theorem filter_append_other {other : String} (hne : other ≠ path) (h : ∀ a ∈ more, key a = path) :
    (items ++ more).filter (key · = other) = items.filter (key · = other) := by
  have hnone : more.filter (key · = other) = [] :=
    List.filter_eq_nil_iff.2 fun a ha he => hne ((of_decide_eq_true he).symm.trans (h a ha))
  rw [List.filter_append, hnone, List.append_nil]

end Added

/-- What a step on a task may do beside moving it on: load or write, speak and hand in a result, all
about the file of the task only. -/
structure Move (setup : Setup) (ws : Workspace) (works : List Work) (pool : Pool) (task : Task)
    (workspace : Workspace) (added : Journal) (arrived : List (String × Except Failure FileResult))
    (more : Option Work) : Prop where
  speaks : Journal.Confined task.path added
  delivers : ∀ row ∈ arrived, row.1 = task.path
  performs : ∀ w ∈ more, w.path = task.path ∧ w.findings = task.diagnostics ∧ LoadedBy setup ws works w
  alike : workspace.loader.Alike pool.workspace.loader
  kept : ∀ path, path ≠ task.path → workspace.loader.kept? path = pool.workspace.loader.kept? path
  chain : Chain setup ws.tree (works ++ more.toList) workspace.tree

/-- A step that neither loads nor writes. -/
theorem Sound.still (h : Sound setup ws groups works pool) {added : Journal}
    (hadded : Journal.Confined task.path added) (arrived : List (String × Except Failure FileResult))
    (harrived : ∀ row ∈ arrived, row.1 = task.path) :
    Move setup ws works pool task pool.workspace added arrived none where
  speaks := hadded
  delivers := harrived
  performs := by simp
  alike := .refl _
  kept _ _ := rfl
  chain := by simpa using h.chain

namespace Move

variable {workspace : Workspace} {added : Journal} {arrived : List (String × Except Failure FileResult)}
  {more : Option Work} (m : Move setup ws works pool task workspace added arrived more)
include m

theorem path_eq {w : Work} (hw : w ∈ more.toList) : w.path = task.path :=
  (m.performs w (Option.mem_toList.1 hw)).1

theorem works_self : (works ++ more.toList).filter (·.path = task.path) =
    works.filter (·.path = task.path) ++ more.toList :=
  filter_append_self fun _ => m.path_eq

theorem works_other {path : String} (hne : path ≠ task.path) :
    (works ++ more.toList).filter (·.path = path) = works.filter (·.path = path) :=
  filter_append_other hne fun _ => m.path_eq

theorem finished_self : (pool.finished ++ arrived).filter (·.1 = task.path) =
    pool.finished.filter (·.1 = task.path) ++ arrived :=
  filter_append_self m.delivers

theorem finished_other {path : String} (hne : path ≠ task.path) :
    (pool.finished ++ arrived).filter (·.1 = path) = pool.finished.filter (·.1 = path) :=
  filter_append_other hne m.delivers

theorem journal_other {path : String} (hne : path ≠ task.path) :
    (pool.journal ++ added).about path = pool.journal.about path := by
  rw [Journal.about_append, m.speaks.about_other hne, List.append_nil]

/-- Every work loaded its document at some time before, the new one included. -/
theorem loads (h : Sound setup ws groups works pool) (before : List Work) (w : Work) (later : List Work)
    (he : works ++ more.toList = before ++ w :: later) : LoadedBy setup ws before w := by
  rcases more with _ | v
  · exact h.loads before w later (by simpa using he)
  -- the new work is the last one, so `w` is either it or an old one
  · rcases List.eq_nil_or_concat later with rfl | ⟨later', v', rfl⟩
    · obtain ⟨rfl, hv⟩ := List.append_inj' he rfl
      obtain rfl : v = w := by simpa using hv
      exact (m.performs v rfl).2.2
    · rw [List.concat_eq_append, ← List.cons_append, ← List.append_assoc] at he
      exact h.loads before w later' (List.append_inj' he rfl).1

/-- All other tasks keep their standing. -/
theorem standing_other (h : Sound setup ws groups works pool) {j : Nat} {other : Task}
    (hj : pool.tasks[j]? = some other) (hne : other.path ≠ task.path) :
    Standing setup ws (works ++ more.toList) other ((works ++ more.toList).filter (·.path = other.path))
      ((pool.journal ++ added).about other.path) ((pool.finished ++ arrived).filter (·.1 = other.path))
      (workspace.loader.kept? other.path) := by
  rw [m.works_other hne, m.journal_other hne, m.finished_other hne, m.kept _ hne]
  exact (h.standing j other hj).mono _

end Move

/-- A move of one task into a stage. All other files keep their standing, so only that of its own
file has to be shown. -/
theorem Sound.move (h : Sound setup ws groups works pool) (hn : groups.keys.Nodup)
    (hi : pool.tasks[i]? = some task) (stage : Stage) (hstopped : stage = .withdrawn → stopped pool.finished ≠ [])
    {workspace : Workspace} {added : Journal} {arrived : List (String × Except Failure FileResult)} {more : Option Work}
    (m : Move setup ws works pool task workspace added arrived more)
    (hstanding : Standing setup ws (works ++ more.toList) { task with stage := stage }
      (works.filter (·.path = task.path) ++ more.toList) (pool.journal.about task.path ++ added.about task.path)
      (pool.finished.filter (·.1 = task.path) ++ arrived) (workspace.loader.kept? task.path)) :
    Sound setup ws groups (works ++ more.toList)
      ⟨workspace, pool.journal ++ added, pool.finished ++ arrived,
        pool.tasks.modify i fun task => { task with stage := stage }⟩ where
  rows := (rows_modify pool.tasks i stage).trans h.rows
  chain := m.chain
  group w hw := by
    rcases List.mem_append.1 hw with hw | hw
    · exact h.group w hw
    · obtain ⟨hp, hf, -⟩ := m.performs w (Option.mem_toList.1 hw)
      rw [hp, hf]
      exact h.mem_keys hi
  loads := m.loads h
  alike := m.alike.trans h.alike
  standing j other hj := by
    rw [List.getElem?_modify] at hj
    by_cases hij : i = j
    · obtain rfl : { task with stage := stage } = other := by simpa [← hij, hi] using hj
      rw [m.works_self, Journal.about_append, m.finished_self]
      exact hstanding
    · replace hj : pool.tasks[j]? = some other := by simpa [hij] using hj
      exact m.standing_other h hj (h.path_ne hn hi hj hij)
  others path hp := by
    have hne : path ≠ task.path := by
      rintro rfl
      exact hp (List.mem_map_of_mem (h.mem_keys hi))
    obtain ⟨hj, hk, hf⟩ := h.others path hp
    refine ⟨(m.journal_other hne).trans hj, (m.kept path hne).trans hk, fun row hrow => ?_⟩
    rcases List.mem_append.1 hrow with hrow | hrow
    · exact hf row hrow
    · rw [m.delivers row hrow]
      exact Ne.symm hne
  loose e he := by
    rw [Journal.events_append, List.mem_append] at he
    rcases he with he | he
    · exact h.loose e he
    · rw [m.speaks.events e he]; simp
  withdrawal other hother hs := by
    obtain ⟨j, hj⟩ := List.mem_iff_getElem?.1 hother
    rw [List.getElem?_modify] at hj
    refine stopped_append_ne_nil ?_
    by_cases hij : i = j
    · obtain rfl : { task with stage := stage } = other := by simpa [← hij, hi] using hj
      exact hstopped hs
    · replace hj : pool.tasks[j]? = some other := by simpa [hij] using hj
      exact h.withdrawal other (List.mem_of_getElem? hj) hs

/-! ## Steps -/

/-- A task is withdrawn only if it waits and the work on some file was given up. -/
theorem withdraw_eq (pool : Pool) (i : Nat) : pool.withdraw i = pool ∨
    ∃ task, pool.tasks[i]? = some task ∧ task.stage = .waiting ∧ stopped pool.finished ≠ [] ∧
      pool.withdraw i = pool.enter i .withdrawn := by
  unfold withdraw
  split
  · exact .inl rfl
  · rename_i task hi
    split
    · rename_i hs
      split
      · exact .inl rfl
      · rename_i hstopped
        exact .inr ⟨task, hi, hs, fun hnil => hstopped (List.isEmpty_iff.2 hnil), rfl⟩
    · exact .inl rfl

/-- Loading: the plan is made, and a file with nothing to write has come to writing at once. -/
theorem Sound.load (h : Sound setup ws groups works pool) (hn : groups.keys.Nodup)
    (hi : pool.tasks[i]? = some task) (hs : task.stage = .waiting) :
    ∃ works', Sound setup ws groups works' (pool.step setup i) := by
  obtain ⟨hmine, hsaid, harr, hk⟩ := (h.standing i task hi).of_idle (.inl hs)
  -- the work as it would be if the file came to writing now
  let w : Work := ⟨task.path, task.diagnostics, 0, (pool.workspace.loader.load pool.workspace.tree task.path).1,
    pool.workspace.tree, fun _ hl => Loader.load_path _ _ _ hl⟩
  let loaded : Workspace :=
    ⟨pool.workspace.tree, (pool.workspace.loader.load pool.workspace.tree task.path).2⟩
  obtain ⟨halike, hother⟩ := pool.workspace.loader.load_frame pool.workspace.tree task.path
  have hkept := pool.workspace.loader.load_ok_iff pool.workspace.tree task.path
  have hconfined : Journal.Confined task.path (w.plan setup).journal := (w.confined setup).of_append.1
  have hload : LoadedBy setup ws works w :=
    ⟨works, pool.workspace.tree, List.prefix_refl _, h.chain,
      Loader.load_congr hk (h.alike.fetch _ _)⟩
  have hstep : pool.step setup i = ⟨loaded, pool.journal ++ [], pool.finished ++ [],
      pool.tasks.modify i fun t => { t with stage := .speaking (w.plan setup).journal (w.plan setup).next }⟩ := by
    simp only [step, hi, hs, List.append_nil]
    rfl
  rw [hstep]
  rcases hnext : (w.plan setup).next with result | ⟨content, diff, applied, skipped⟩
  · have hafter : w.after setup = pool.workspace.tree := by
      unfold Work.after
      rw [hnext]; rfl
    have hchain : Chain setup ws.tree (works ++ [w]) (w.after setup) := Chain.snoc (w := w) h.chain
    rw [hafter] at hchain
    have hmove : Move setup ws works pool task loaded [] [] (some w) :=
      ⟨confined_nil _, by simp, by rintro v ⟨⟩; exact ⟨rfl, rfl, hload⟩, halike, hother, hchain⟩
    refine ⟨_, h.move hn hi _ (by nofun) hmove ?_⟩
    rw [hmine, hsaid, harr]
    refine .performed w _ _ result _ rfl hkept ?_ ?_ hconfined
    · unfold Work.journal
      rw [hnext]; rfl
    · unfold Work.result
      rw [hnext]; rfl
  · have hchain : Chain setup ws.tree (works ++ []) pool.workspace.tree := by simpa using h.chain
    have hmove : Move setup ws works pool task loaded [] [] none :=
      ⟨confined_nil _, by simp, by simp, halike, hother, hchain⟩
    refine ⟨_, h.move hn hi _ (by nofun) hmove ?_⟩
    rw [hmine, hsaid, harr]
    exact .planned w _ _ content diff applied skipped _ rfl ⟨rfl, rfl⟩ (hload.mono _) hkept hnext rfl hconfined

/-- Speaking: one more entry of the file goes to the journal. -/
theorem Sound.speak (h : Sound setup ws groups works pool) (hn : groups.keys.Nodup)
    (hi : pool.tasks[i]? = some task) {entry : Entry} {pending : Journal} {next : Next}
    (hs : task.stage = .speaking (entry :: pending) next) :
    Sound setup ws groups works (pool.step setup i) := by
  have hstep : pool.step setup i = ⟨pool.workspace, pool.journal ++ [entry], pool.finished ++ [],
      pool.tasks.modify i fun t => { t with stage := .speaking pending next }⟩ := by
    simp only [step, hi, hs, enter, List.append_nil]
  have hworks : works = works ++ (none : Option Work).toList := by simp
  have hst := h.standing i task hi
  rw [hstep, hworks]
  cases next with
  | store content diff applied skipped =>
    obtain ⟨hmine, harr, w, hw, hload, hkept, hnext, hsaid, hc⟩ := hst.of_store hs
    obtain ⟨hentry, hpending⟩ := hc.of_cons
    refine h.move hn hi _ (by nofun) (h.still hentry [] (by simp)) ?_
    rw [hmine, harr]
    refine .planned w pending _ content diff applied skipped _ rfl hw (hload.mono _) hkept hnext ?_ hpending
    rw [List.append_assoc, ← Journal.about_append]
    exact hsaid
  | finish result =>
    obtain ⟨harr, w, hmine, hkept, hsaid, hresult, hc⟩ := hst.of_finish hs
    obtain ⟨hentry, hpending⟩ := hc.of_cons
    refine h.move hn hi _ (by nofun) (h.still hentry [] (by simp)) ?_
    rw [hmine, harr]
    refine .performed w pending _ result _ rfl hkept ?_ hresult hpending
    rw [List.append_assoc, ← Journal.about_append]
    exact hsaid

/-- Delivering: a file that has spoken hands its result in. -/
theorem Sound.deliver (h : Sound setup ws groups works pool) (hn : groups.keys.Nodup)
    (hi : pool.tasks[i]? = some task) {result : Except Failure FileResult}
    (hs : task.stage = .speaking [] (.finish result)) (hg : guarded task.path ([], result) = ([], result)) :
    Sound setup ws groups works ((pool.deliver task.path result).enter i (.done result)) := by
  obtain ⟨harr, w, hmine, hkept, hsaid, hresult, -⟩ := (h.standing i task hi).of_finish hs
  have hmove := h.move hn hi (.done result) nofun (h.still (confined_nil _) [(task.path, result)] (by simp))
  rw [hg] at hsaid hresult
  simp only [Option.toList_none, List.append_nil] at hmove
  refine hmove ?_
  rw [hmine, harr]
  exact .done w _ result _ rfl hkept (by simpa using hsaid) hresult

/-- Complaining: a failure that stays with its file is spoken of before the result is handed in. -/
theorem Sound.complain (h : Sound setup ws groups works pool) (hn : groups.keys.Nodup)
    (hi : pool.tasks[i]? = some task) {result : Except Failure FileResult}
    (hs : task.stage = .speaking [] (.finish result)) :
    Sound setup ws groups works (pool.enter i (.speaking (guarded task.path ([], result)).1
      (.finish (guarded task.path ([], result)).2))) := by
  obtain ⟨harr, w, hmine, hkept, hsaid, hresult, -⟩ := (h.standing i task hi).of_finish hs
  have hmove := h.move hn hi (.speaking (guarded task.path ([], result)).1
    (.finish (guarded task.path ([], result)).2)) nofun (h.still (confined_nil _) [] (by simp))
  simp only [Option.toList_none, List.append_nil] at hmove
  refine hmove ?_
  rw [hmine, harr]
  refine .performed w _ _ _ _ rfl hkept ?_ ?_ (confined_guarded _ _)
  · rw [guarded_guarded, List.append_nil, Journal.about_nil, List.append_nil]
    exact hsaid
  · rw [guarded_guarded]
    exact hresult

/-- Writing: the file comes to writing, on the files as they are now. -/
theorem Sound.store (h : Sound setup ws groups works pool) (hn : groups.keys.Nodup)
    (hi : pool.tasks[i]? = some task) {content diff : String} {applied skipped : Nat}
    (hs : task.stage = .speaking [] (.store content diff applied skipped)) :
    ∃ works', Sound setup ws groups works' (pool.step setup i) := by
  obtain ⟨hmine, harr, v, hv, hload, hkept, hnext, hsaid, -⟩ := (h.standing i task hi).of_store hs
  -- the plan was made earlier, but the text goes to the files as they are now
  let w : Work := { v with tree := pool.workspace.tree }
  have hwpath : w.path = task.path := hv.1
  have hwnext : (w.plan setup).next = .store content diff applied skipped := hnext
  have hwjournal : w.journal setup = (v.plan setup).journal ++
      (perform setup pool.workspace.tree task.path (.store content diff applied skipped)).1 := by
    unfold Work.journal
    rw [hwnext, hwpath]; rfl
  have hwresult : w.result setup =
      (perform setup pool.workspace.tree task.path (.store content diff applied skipped)).2.1 := by
    unfold Work.result
    rw [hwnext, hwpath]
  have hwafter : w.after setup =
      (perform setup pool.workspace.tree task.path (.store content diff applied skipped)).2.2 := by
    unfold Work.after
    rw [hwnext, hwpath]
  have hconfined := w.confined setup
  rw [hwjournal, hwpath] at hconfined
  have hguarded : guarded task.path ([], w.result setup) = ([], w.result setup) := by
    rw [hwresult]
    exact guarded_guarded ..
  have hstep : pool.step setup i = ⟨⟨w.after setup, pool.workspace.loader⟩, pool.journal ++ [], pool.finished ++ [],
      pool.tasks.modify i fun t => { t with
        stage := .speaking (perform setup pool.workspace.tree task.path (.store content diff applied skipped)).1
          (.finish (w.result setup)) }⟩ := by
    rw [hwafter, hwresult]
    simp only [step, hi, hs, enter, List.append_nil]
  rw [hstep]
  have hmove : Move setup ws works pool task ⟨w.after setup, pool.workspace.loader⟩ [] [] (some w) :=
    ⟨confined_nil _, by simp, by rintro u ⟨⟩; exact ⟨hv.1, hv.2, hload⟩, .refl _, fun _ _ => rfl,
      Chain.snoc (w := w) h.chain⟩
  refine ⟨_, h.move hn hi _ (by nofun) hmove ?_⟩
  rw [hmine, harr]
  refine .performed w _ _ (w.result setup) _ rfl hkept ?_ ?_ hconfined.of_append.2
  · simp only [hguarded, hwjournal, Journal.about_append, ← hsaid]
    simp
  · rw [hguarded]

/-- Every step of every worker keeps the account. -/
theorem Sound.step (h : Sound setup ws groups works pool) (hn : groups.keys.Nodup) (i : Nat) :
    ∃ works', Sound setup ws groups works' (pool.step setup i) := by
  rcases hi : pool.tasks[i]? with _ | task
  · exact ⟨works, by rw [Pool.step, hi]; exact h⟩
  rcases hs : task.stage with _ | ⟨pending, next⟩ | result | _
  · exact h.load hn hi hs
  · rcases pending with _ | ⟨entry, pending⟩
    · rcases next with (failure | result) | ⟨content, diff, applied, skipped⟩
      · refine ⟨works, ?_⟩
        simp only [Pool.step, hi, hs]
        cases hc : failure.isCancelled with
        | true =>
          rw [guarded_cancelled hc]
          exact h.deliver hn hi hs (guarded_cancelled hc)
        | false =>
          have hcomplain := h.complain hn hi hs
          rw [guarded_error hc] at hcomplain ⊢
          exact hcomplain
      · refine ⟨works, ?_⟩
        simp only [Pool.step, hi, hs]
        exact h.deliver hn hi hs rfl
      · exact h.store hn hi hs
    · exact ⟨works, h.speak hn hi hs⟩
  · refine ⟨works, ?_⟩
    simp only [Pool.step, hi, hs]
    exact h
  · refine ⟨works, ?_⟩
    simp only [Pool.step, hi, hs]
    exact h

/-- Withdrawing: nothing was said or done about the file, and nothing will be. -/
theorem Sound.withdraw (h : Sound setup ws groups works pool) (hn : groups.keys.Nodup) (i : Nat) :
    Sound setup ws groups works (pool.withdraw i) := by
  rcases withdraw_eq pool i with hsame | ⟨task, hi, hs, hstopped, hmoved⟩
  · rw [hsame]
    exact h
  · obtain ⟨hmine, hsaid, harr, hk⟩ := (h.standing i task hi).of_idle (.inl hs)
    have hmove := h.move hn hi .withdrawn (fun _ => hstopped) (h.still (confined_nil _) [] (by simp))
    simp only [Option.toList_none, List.append_nil] at hmove
    rw [hmoved]
    refine hmove ?_
    rw [hmine, hsaid, harr, hk]
    exact .withdrawn rfl

/-! ## Whole runs -/

/-- One round of steps of a task, as many as it can take before it has spoken. -/
def round (setup : Setup) (i : Nat) (pool : Pool) : Pool :=
  match pool.tasks[i]? with
  | some task => pool.advance setup i task.stage.left
  | none => pool

theorem finish_eq (setup : Setup) (pool : Pool) (i : Nat) :
    pool.finish setup i = round setup i (round setup i (round setup i (round setup i pool))) := rfl

section Keeps

variable {P : Pool → Prop} (hstep : ∀ pool i, P pool → P (pool.step setup i))
include hstep

theorem advance_keeps (i fuel : Nat) : ∀ pool, P pool → P (pool.advance setup i fuel) := by
  induction fuel with
  | zero => exact fun _ h => h
  | succ fuel ih => exact fun pool h => ih _ (hstep pool i h)

/-- What every step keeps is still there when a task is finished. -/
theorem finish_keeps (i : Nat) (h : P pool) : P (pool.finish setup i) := by
  have hround : ∀ pool, P pool → P (round setup i pool) := by
    intro pool h
    unfold round
    split
    · exact advance_keeps hstep _ _ _ h
    · exact h
  rw [finish_eq]
  exact hround _ (hround _ (hround _ (hround _ h)))

end Keeps

/-- A step of one task leaves the others where they are. -/
theorem tasks_step_ne {j : Nat} (hij : i ≠ j) : (pool.step setup i).tasks[j]? = pool.tasks[j]? := by
  have hmodify : ∀ stage : Stage,
      (pool.tasks.modify i fun t => { t with stage := stage })[j]? = pool.tasks[j]? := by
    intro stage
    simp [hij]
  unfold step
  split
  · rfl
  · split
    · exact hmodify _
    · exact hmodify _
    · exact hmodify _
    · split
      · exact hmodify _
      · exact hmodify _
    · exact hmodify _
    · rfl
    · rfl

/-- A task that has delivered its result or was withdrawn. -/
def Ended (j : Nat) (pool : Pool) : Prop :=
  ∃ task, pool.tasks[j]? = some task ∧ ((∃ result, task.stage = .done result) ∨ task.stage = .withdrawn)

theorem ended_step (j : Nat) (pool : Pool) (i : Nat) (h : Ended j pool) : Ended j (pool.step setup i) := by
  obtain ⟨task, hj, hs⟩ := h
  by_cases hij : i = j
  · subst hij
    refine ⟨task, ?_, hs⟩
    rcases hs with ⟨result, hs⟩ | hs
    · simp only [step, hj, hs]
    · simp only [step, hj, hs]
  · exact ⟨task, (tasks_step_ne hij).trans hj, hs⟩

/-- How many rounds a stage may still need. -/
def rank : Stage → Nat
  | .waiting => 4
  | .speaking _ (.store ..) => 3
  | .speaking _ (.finish (.error _)) => 2
  | .speaking _ (.finish (.ok _)) => 1
  | .done _ | .withdrawn => 0

theorem tasks_enter (hi : pool.tasks[i]? = some task) (stage : Stage) :
    (pool.enter i stage).tasks[i]? = some { task with stage := stage } := by
  simp [enter, hi]

theorem rank_speaking (pending other : Journal) (next : Next) :
    rank (.speaking pending next) = rank (.speaking other next) := by
  rcases next with (_ | _) | _ <;> rfl

variable (setup)

/-- A task that has spoken comes closer to its result by its next step. -/
theorem rank_step (hi : pool.tasks[i]? = some task) (hs : task.stage = .waiting ∨ ∃ next, task.stage = .speaking [] next) :
    ∃ task', (pool.step setup i).tasks[i]? = some task' ∧ rank task'.stage < rank task.stage := by
  rcases hs with hs | ⟨(failure | result) | ⟨content, diff, applied, skipped⟩, hs⟩
  · simp only [step, hi, hs]
    refine ⟨_, tasks_enter hi _, ?_⟩
    rcases (planLoaded setup 0 task.path task.diagnostics (pool.workspace.load task.path).1).next with (_ | _) | _ <;>
      simp [rank]
  · simp only [step, hi, hs]
    cases hc : failure.isCancelled with
    | true => rw [guarded_cancelled hc]; exact ⟨_, tasks_enter hi _, by simp [rank]⟩
    | false => rw [guarded_error hc]; exact ⟨_, tasks_enter hi _, by simp [rank]⟩
  · simp only [step, hi, hs]
    exact ⟨_, tasks_enter hi _, by simp [rank]⟩
  · simp only [step, hi, hs]
    refine ⟨_, tasks_enter hi _, ?_⟩
    rcases (perform setup pool.workspace.tree task.path (.store content diff applied skipped)).2.1 with _ | _ <;>
      simp [rank]

/-- A task that says what it has to say comes closer to its result. -/
theorem rank_advance {next : Next} (pending : Journal) : ∀ (pool : Pool) (task : Task),
    pool.tasks[i]? = some task → task.stage = .speaking pending next →
    ∃ task', (pool.advance setup i (pending.length + 1)).tasks[i]? = some task' ∧
      rank task'.stage < rank (.speaking pending next) := by
  induction pending with
  | nil =>
    intro pool task hi hs
    rw [← hs]
    exact rank_step setup hi (.inr ⟨next, hs⟩)
  | cons entry pending ih =>
    intro pool task hi hs
    rw [rank_speaking (entry :: pending) pending]
    refine ih (pool.step setup i) { task with stage := .speaking pending next } ?_ rfl
    simp only [step, hi, hs]
    exact tasks_enter hi _

theorem rank_round (hi : pool.tasks[i]? = some task) :
    ∃ task', (round setup i pool).tasks[i]? = some task' ∧ rank task'.stage ≤ rank task.stage - 1 := by
  simp only [round, hi]
  rcases hs : task.stage with _ | ⟨pending, next⟩ | result | _
  · obtain ⟨task', hi', hr⟩ := rank_step setup hi (.inl hs)
    rw [hs] at hr
    exact ⟨task', hi', by omega⟩
  · obtain ⟨task', hi', hr⟩ := rank_advance setup pending pool task hi hs
    exact ⟨task', hi', by omega⟩
  · exact ⟨task, hi, by simp [hs, rank]⟩
  · exact ⟨task, hi, by simp [hs, rank]⟩

theorem ended_finish (hi : pool.tasks[i]? = some task) : Ended i (pool.finish setup i) := by
  -- no rank is above four, and each of the four rounds lowers it
  obtain ⟨t1, h1, r1⟩ := rank_round setup hi
  obtain ⟨t2, h2, r2⟩ := rank_round setup h1
  obtain ⟨t3, h3, r3⟩ := rank_round setup h2
  obtain ⟨t4, h4, r4⟩ := rank_round setup h3
  have h0 : rank task.stage ≤ 4 := by
    rcases task.stage with _ | ⟨_, (_ | _) | _⟩ | _ | _ <;> simp [rank]
  have hdone : rank t4.stage = 0 := by omega
  rcases hs : t4.stage with _ | ⟨_, (_ | _) | _⟩ | result | _
  · rw [hs] at hdone; cases hdone
  · rw [hs] at hdone; cases hdone
  · rw [hs] at hdone; cases hdone
  · rw [hs] at hdone; cases hdone
  · exact ⟨t4, h4, .inl ⟨result, hs⟩⟩
  · exact ⟨t4, h4, .inr hs⟩

/-! ## The account -/

theorem Sound.length_tasks (h : Sound setup ws groups works pool) : pool.tasks.length = groups.length := by
  rw [← h.rows, List.length_map]

/-- Some works account for the pool. -/
def Accounted (setup : Setup) (ws : Workspace) (groups : Table String (List Diagnostic)) (pool : Pool) : Prop :=
  ∃ works, Sound setup ws groups works pool

theorem accounted_step (hn : groups.keys.Nodup) (pool : Pool) (i : Nat) (h : Accounted setup ws groups pool) :
    Accounted setup ws groups (pool.step setup i) := by
  obtain ⟨works, h⟩ := h
  exact h.step hn i

theorem accounted_turn (hn : groups.keys.Nodup) (pool : Pool) (turn : Turn) (h : Accounted setup ws groups pool) :
    Accounted setup ws groups (pool.turn setup turn) := by
  cases turn with
  | work i => exact accounted_step setup hn pool i h
  | withdraw i =>
    obtain ⟨works, h⟩ := h
    exact ⟨works, h.withdraw hn i⟩

/-- Finishing tasks one after the other, each has ended in the end. -/
theorem ended_foldl (hn : groups.keys.Nodup) (indices : List Nat) : ∀ pool, Accounted setup ws groups pool →
    ∀ j ∈ indices, j < groups.length → Ended j (indices.foldl (Pool.finish setup) pool) := by
  induction indices with
  | nil => simp
  | cons i rest ih =>
    intro pool hpool j hj hlt
    rw [List.foldl_cons]
    by_cases hij : j ∈ rest
    · exact ih _ (finish_keeps (accounted_step setup hn) i hpool) j hij hlt
    · obtain rfl : j = i := by simpa [hij] using hj
      obtain ⟨works, h⟩ := hpool
      -- once ended, a task stays so while the others are finished
      have hdone : Ended j (pool.finish setup j) :=
        ended_finish setup (List.getElem?_eq_getElem (h.length_tasks setup ▸ hlt))
      exact List.foldlRecOn rest _ hdone fun pool h i _ => finish_keeps (ended_step j) i h

/-- In the end some works account for the pool, and all tasks have ended. -/
theorem accounted_run (ws : Workspace) (hn : groups.keys.Nodup) (schedule : List Turn) :
    Accounted setup ws groups ((start ws groups).run setup schedule) ∧
      ∀ j, j < groups.length → Ended j ((start ws groups).run setup schedule) := by
  have hstart : Accounted setup ws groups (start ws groups) := ⟨[], sound_start setup ws groups⟩
  have hscheduled : Accounted setup ws groups (schedule.foldl (Pool.turn setup) (start ws groups)) :=
    List.foldlRecOn schedule _ hstart fun pool h turn _ => accounted_turn setup hn pool turn h
  refine ⟨List.foldlRecOn _ _ hscheduled fun pool h i _ => finish_keeps (accounted_step setup hn) i h, fun j hj => ?_⟩
  refine ended_foldl setup hn _ _ hscheduled j ?_ hj
  obtain ⟨works, h⟩ := hscheduled
  rw [h.length_tasks setup]
  exact List.mem_range.2 hj

/-- What a finished pool has of a group: one work, and all that is known of its file comes from it; or
nothing at all, if the work on some file was given up. -/
theorem Sound.settled (h : Sound setup ws groups works pool) (hn : groups.keys.Nodup)
    (hd : ∀ j, j < groups.length → Ended j pool) {path : String} {fs : List Diagnostic}
    (hg : (path, fs) ∈ groups) :
    (∃ w : Work, works.filter (·.path = path) = [w] ∧ (w.path, w.findings) = (path, fs) ∧
      pool.journal.about path = Journal.about path (w.journal setup) ∧
      pool.finished.filter (·.1 = path) = [(path, w.result setup)] ∧
      ∀ document, w.loaded = .ok document ↔ pool.workspace.loader.kept? path = some document) ∨
    (works.filter (·.path = path) = [] ∧ pool.journal.about path = [] ∧ pool.finished.filter (·.1 = path) = [] ∧
      pool.workspace.loader.kept? path = ws.loader.kept? path ∧ stopped pool.finished ≠ []) := by
  obtain ⟨j, hj, hrow⟩ := List.getElem_of_mem hg
  obtain ⟨task, hi, hended⟩ := hd j hj
  have htask : (task.path, task.diagnostics) = (path, fs) := by
    have := congrArg (·[j]?) h.rows
    simpa [hi, List.getElem?_eq_getElem hj, hrow] using this
  obtain ⟨rfl, rfl⟩ := Prod.mk.inj htask
  rcases hended with ⟨result, hs⟩ | hs
  · obtain ⟨harr, w, hmine, hkept, hsaid, rfl⟩ := (h.standing j task hi).of_done hs
    have hmem : w ∈ works ∧ w.path = task.path := by
      have hw : w ∈ works.filter (·.path = task.path) := by rw [hmine]; exact List.mem_singleton_self w
      simpa using hw
    refine .inl ⟨w, hmine, ?_, hsaid, harr, hkept⟩
    have hfs := Table.get?_of_mem hn (h.group w hmem.1)
    rw [hmem.2, Table.get?_of_mem hn hg] at hfs
    rw [hmem.2, Option.some.inj hfs]
  · obtain ⟨hmine, hsaid, harr, hkept⟩ := (h.standing j task hi).of_idle (.inr hs)
    exact .inr ⟨hmine, hsaid, harr, hkept, h.withdrawal task (List.mem_of_getElem? hi) hs⟩

/-- The same, starting from a work. -/
theorem Sound.settled_work (h : Sound setup ws groups works pool) (hn : groups.keys.Nodup)
    (hd : ∀ j, j < groups.length → Ended j pool) {w : Work} (hw : w ∈ works) :
    works.filter (·.path = w.path) = [w] ∧
      pool.finished.filter (·.1 = w.path) = [(w.path, w.result setup)] ∧
      ∀ document, w.loaded = .ok document ↔ pool.workspace.loader.kept? w.path = some document := by
  have hmem : w ∈ works.filter (·.path = w.path) := List.mem_filter.2 ⟨hw, by simp⟩
  rcases h.settled setup hn hd (h.group w hw) with ⟨v, hmine, -, -, harr, hkept⟩ | ⟨hmine, -⟩
  · rw [hmine] at hmem
    obtain rfl := List.mem_singleton.1 hmem
    exact ⟨hmine, harr, hkept⟩
  · rw [hmine] at hmem
    cases hmem

/-- Every result that arrived is that of a work. -/
theorem Sound.arrived_iff (h : Sound setup ws groups works pool) (hn : groups.keys.Nodup)
    (hd : ∀ j, j < groups.length → Ended j pool) (path : String) (result : Except Failure FileResult) :
    (path, result) ∈ pool.finished ↔ ∃ w ∈ works, w.path = path ∧ w.result setup = result := by
  constructor
  · intro hrow
    have hkey : path ∈ groups.keys := by
      by_contra hno
      exact (h.others path hno).2.2 _ hrow rfl
    obtain ⟨⟨path, fs⟩, hg, rfl⟩ := List.mem_map.1 hkey
    have hmem : (path, result) ∈ pool.finished.filter (·.1 = path) := List.mem_filter.2 ⟨hrow, by simp⟩
    rcases h.settled setup hn hd hg with ⟨w, hmine, hrow', -, harr, -⟩ | ⟨-, -, harr, -⟩
    · have hw : w ∈ works.filter (·.path = path) := hmine ▸ List.mem_singleton_self w
      rw [harr] at hmem
      refine ⟨w, (List.mem_filter.1 hw).1, (Prod.mk.inj hrow').1, ?_⟩
      exact ((Prod.mk.inj (List.mem_singleton.1 hmem)).2).symm
    · rw [harr] at hmem
      cases hmem
  · rintro ⟨w, hw, rfl, rfl⟩
    obtain ⟨-, harr, -⟩ := h.settled_work setup hn hd hw
    have hmem : (w.path, w.result setup) ∈ pool.finished.filter (·.1 = w.path) := harr ▸ List.mem_singleton_self _
    exact (List.mem_filter.1 hmem).1

/-- Keys do not repeat if filtering for any of them gives one item. -/
theorem nodup_map_of_filter {α : Type} {items : List α} {key : α → String}
    (h : ∀ a ∈ items, ∃ b, items.filter (key · = key a) = [b]) : (items.map key).Nodup := by
  rw [List.nodup_iff_count_le_one]
  intro k
  by_cases hk : k ∈ items.map key
  · obtain ⟨a, ha, rfl⟩ := List.mem_map.1 hk
    obtain ⟨b, hb⟩ := h a ha
    have hone : items.filter ((· == key a) ∘ key) = [b] := by
      rw [← hb]
      exact List.filter_congr fun x _ => rfl
    rw [List.count_eq_countP, List.countP_map, List.countP_eq_length_filter, hone]
    exact Nat.le_refl 1
  · rw [List.count_eq_zero_of_not_mem hk]
    exact Nat.zero_le 1

/-- No file has two results. -/
theorem Sound.nodup_finished (h : Sound setup ws groups works pool) (hn : groups.keys.Nodup)
    (hd : ∀ j, j < groups.length → Ended j pool) : (pool.finished.map (·.1)).Nodup := by
  refine nodup_map_of_filter fun row hrow => ?_
  obtain ⟨w, hw, hp, -⟩ := (h.arrived_iff setup hn hd row.1 row.2).1 hrow
  rw [← hp]
  exact ⟨_, (h.settled_work setup hn hd hw).2.1⟩

/-- A result is filed under the file that it is about. -/
theorem Sound.path_of_arrived (h : Sound setup ws groups works pool) (hn : groups.keys.Nodup)
    (hd : ∀ j, j < groups.length → Ended j pool) {path : String} {r : FileResult}
    (hrow : (path, .ok r) ∈ pool.finished) : r.path = path := by
  obtain ⟨w, -, rfl, hr⟩ := (h.arrived_iff setup hn hd path (.ok r)).1 hrow
  exact (course setup w).path_of_result hr

/-- A finished pool in which no work was given up has a work for every group. -/
theorem Sound.exists_work (h : Sound setup ws groups works pool) (hn : groups.keys.Nodup)
    (hd : ∀ j, j < groups.length → Ended j pool) (hnone : stopped pool.finished = [])
    {row : String × List Diagnostic} (hrow : row ∈ groups) : ∃ w ∈ works, (w.path, w.findings) = row := by
  rcases h.settled setup hn hd hrow with ⟨w, hmine, hw, -⟩ | ⟨-, -, -, -, hsome⟩
  · have hmem : w ∈ works.filter (·.path = row.1) := hmine ▸ List.mem_singleton_self w
    exact ⟨w, (List.mem_filter.1 hmem).1, hw⟩
  · exact absurd hnone hsome

theorem Sound.nodup_works (h : Sound setup ws groups works pool) (hn : groups.keys.Nodup)
    (hd : ∀ j, j < groups.length → Ended j pool) : (works.map (·.path)).Nodup :=
  nodup_map_of_filter fun w hw => ⟨w, (h.settled_work setup hn hd hw).1⟩

/-- The loader keeps nothing new about a file without a work. -/
theorem Sound.kept_frame (h : Sound setup ws groups works pool) (hn : groups.keys.Nodup)
    (hd : ∀ j, j < groups.length → Ended j pool) {path : String} (hp : ∀ w ∈ works, w.path ≠ path) :
    pool.workspace.loader.kept? path = ws.loader.kept? path := by
  by_cases hkey : path ∈ groups.keys
  · obtain ⟨row, hrow, rfl⟩ := List.mem_map.1 hkey
    rcases h.settled setup hn hd hrow with ⟨w, hmine, -⟩ | ⟨-, -, -, hkept, -⟩
    · have hmem : w ∈ works.filter (·.path = row.1) := hmine ▸ List.mem_singleton_self w
      obtain ⟨hw, hpath⟩ := List.mem_filter.1 hmem
      exact absurd (of_decide_eq_true hpath) (hp w hw)
    · exact hkept
  · exact (h.others path hkey).2.1

/-- In the end the journal has about a file what the works have about it. -/
theorem Sound.about_works (h : Sound setup ws groups works pool) (hn : groups.keys.Nodup)
    (hd : ∀ j, j < groups.length → Ended j pool) (path : String) :
    pool.journal.about path = Journal.about path (works.flatMap (·.journal setup)) := by
  rw [about_flatMap]
  by_cases hkey : path ∈ groups.keys
  · obtain ⟨⟨_, fs⟩, hg, rfl⟩ := List.mem_map.1 hkey
    rcases h.settled setup hn hd hg with ⟨w, hmine, -, hsaid, -⟩ | ⟨hmine, hsaid, -⟩
    · rw [hmine, List.flatMap_singleton]
      exact hsaid
    · rw [hmine]
      exact hsaid
  · have hnone : works.filter (·.path = path) = [] := by
      refine List.filter_eq_nil_iff.2 fun w hw he => hkey ?_
      rw [← of_decide_eq_true he]
      exact List.mem_map_of_mem (h.group w hw)
    rw [hnone]
    exact (h.others path hkey).1

/-! ## What arrived -/

section Arrived

variable {arrived : List (String × Except Failure FileResult)}

theorem mem_results {r : FileResult} : r ∈ results arrived ↔ ∃ path, (path, .ok r) ∈ arrived := by
  unfold results
  rw [List.mem_filterMap]
  constructor
  · rintro ⟨⟨path, failure | result⟩, hrow, hr⟩
    · cases hr
    · obtain rfl : result = r := Option.some.inj hr
      exact ⟨path, hrow⟩
  · rintro ⟨path, hrow⟩
    exact ⟨_, hrow, rfl⟩

theorem mem_stopped {path : String} : path ∈ stopped arrived ↔ ∃ failure, (path, .error failure) ∈ arrived := by
  unfold stopped
  rw [List.mem_filterMap]
  constructor
  · rintro ⟨⟨p, failure | result⟩, hrow, hp⟩
    · obtain rfl : p = path := Option.some.inj hp
      exact ⟨failure, hrow⟩
    · cases hp
  · rintro ⟨failure, hrow⟩
    exact ⟨_, hrow, rfl⟩

theorem results_sublist (h : ∀ path r, (path, .ok r) ∈ arrived → r.path = path) :
    ((results arrived).map (·.path)).Sublist (arrived.map (·.1)) := by
  induction arrived with
  | nil => exact List.Sublist.slnil
  | cons row rest ih =>
    have hrest := ih fun path r hr => h path r (List.mem_cons_of_mem _ hr)
    obtain ⟨path, failure | r⟩ := row
    · exact hrest.cons path
    · have hpath := h path r (List.mem_cons_self ..)
      show (r.path :: (results rest).map (·.path)).Sublist (path :: rest.map (·.1))
      rw [hpath]
      exact hrest.cons_cons path

theorem stopped_sublist : (stopped arrived).Sublist (arrived.map (·.1)) := by
  induction arrived with
  | nil => exact List.Sublist.slnil
  | cons row rest ih =>
    obtain ⟨path, failure | r⟩ := row
    · exact ih.cons_cons path
    · exact ih.cons path

end Arrived

/-- The results of a finished pool are those of its works. -/
theorem Sound.mem_results_iff (h : Sound setup ws groups works pool) (hn : groups.keys.Nodup)
    (hd : ∀ j, j < groups.length → Ended j pool) (r : FileResult) :
    r ∈ results pool.finished ↔ ∃ w ∈ works, w.result setup = .ok r := by
  simp only [mem_results, h.arrived_iff setup hn hd]
  constructor
  · rintro ⟨_, w, hw, -, hr⟩
    exact ⟨w, hw, hr⟩
  · rintro ⟨w, hw, hr⟩
    exact ⟨w.path, w, hw, rfl, hr⟩

/-- The files that a finished pool gave up are those of works that failed. -/
theorem Sound.mem_stopped_iff (h : Sound setup ws groups works pool) (hn : groups.keys.Nodup)
    (hd : ∀ j, j < groups.length → Ended j pool) (path : String) :
    path ∈ stopped pool.finished ↔ ∃ w ∈ works, w.path = path ∧ ∃ failure, w.result setup = .error failure := by
  simp only [mem_stopped, h.arrived_iff setup hn hd]
  constructor
  · rintro ⟨failure, w, hw, hp, hr⟩
    exact ⟨w, hw, hp, failure, hr⟩
  · rintro ⟨w, hw, hp, failure, hr⟩
    exact ⟨failure, w, hw, hp, hr⟩

/-- Nothing is given up in a run that nothing cancels. -/
theorem Sound.stopped_eq_nil (h : Sound setup ws groups works pool) (hn : groups.keys.Nodup)
    (hd : ∀ j, j < groups.length → Ended j pool) (hu : Uncancelled setup) : stopped pool.finished = [] := by
  refine List.eq_nil_iff_forall_not_mem.2 fun path hp => ?_
  obtain ⟨w, -, -, failure, hr⟩ := (h.mem_stopped_iff setup hn hd path).1 hp
  obtain ⟨r, hok⟩ := (course setup w).uncancelled hu
  rw [hr] at hok
  cases hok

/-- The account of a finished pool. -/
theorem Sound.explains (h : Sound setup ws groups works pool) (hn : groups.keys.Nodup)
    (hd : ∀ j, j < groups.length → Ended j pool) :
    Explains setup ws groups works ⟨pool.journal, results pool.finished,
      if (stopped pool.finished).isEmpty then none else some (stopped pool.finished), pool.workspace⟩ := by
  have hgetD : ∀ paths : List String, (if paths.isEmpty then none else some paths).getD [] = paths := by
    rintro (_ | _) <;> rfl
  have hfinished := h.nodup_finished setup hn hd
  exact
    { chain := h.chain
      nodup := h.nodup_works setup hn hd
      group := h.group
      loads := h.loads
      kept := fun w hw => (h.settled_work setup hn hd hw).2.2
      frame := fun path hp => h.kept_frame setup hn hd hp
      about := h.about_works setup hn hd
      loose := h.loose
      results := h.mem_results_iff setup hn hd
      nodupResults := (results_sublist fun path r => h.path_of_arrived setup hn hd).nodup hfinished
      interrupted := by
        simp only [hgetD]
        exact h.mem_stopped_iff setup hn hd
      nodupInterrupted := by
        simp only [hgetD]
        exact stopped_sublist.nodup hfinished
      all := fun hu =>
        ⟨by simp [h.stopped_eq_nil setup hn hd hu], fun row => h.exists_work setup hn hd (h.stopped_eq_nil setup hn hd hu)⟩ }

end Pool

/-- A run by several workers has an account, whatever order they take turns in. -/
theorem explains_pooled (setup : Setup) (schedule : List Turn) (ws : Workspace)
    (groups : Table String (List Diagnostic)) (hn : groups.keys.Nodup) :
    ∃ works, Explains setup ws groups works (pooled setup schedule ws groups) := by
  obtain ⟨⟨works, h⟩, hd⟩ := Pool.accounted_run setup ws hn schedule
  exact ⟨works, h.explains setup hn hd⟩

end Amend.Run
