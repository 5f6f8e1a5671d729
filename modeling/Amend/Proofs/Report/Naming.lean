/-
The paths of reported files. A finding names its file by a path that stands for the file of the
reported name, but a file can have several paths: the steps to a parent are taken in absolute names below
the root and left standing in all others. Two names get the same path exactly if they are written
alike or both are plain and stand for one file. Where all the names of a report are plain, a run knows
each file by one path, reads it under this path alone and calls the writer for it once.
-/
import Amend.Proofs.FilePath
import Amend.Proofs.Report.Offers
import Amend.Proofs.Run.Writes

namespace Amend.Report

open FilePath (walk ofString)

/-! ## Names below a root -/

/-- A name whose path is the usual one of its file. -/
inductive Plain (root p : FilePath) : Prop
  | within (hrelative : p.isAbsolute = false) (hup : ".." ∉ p.segments)
  | below (habsolute : p.isAbsolute = true) (hbelow : root.segments <+: walk [] p.segments) (hnul : p.hasNul = false)
  | outside (hslashes : p.slashes = 1) (houtside : ¬ root.segments <+: walk [] p.segments) (hup : ".." ∉ p.segments)

/-- The usual name of a place. -/
def usual (root : FilePath) (place : List String) : FilePath :=
  if root.segments <+: place then ⟨0, place.drop root.segments.length⟩ else ⟨1, place⟩

/-- The name whose text is the path of a reported name. -/
def spelled (root p : FilePath) : FilePath :=
  if !p.isAbsolute || p.hasNul then p else ((p.resolve []).relativeTo? root).getD p

section Spelling

variable {root p q : FilePath}

theorem relativePath_eq (cwd : List String) (root : FilePath) (name : String) :
    relativePath cwd root name = (spelled root (ofString name)).text := by
  unfold relativePath spelled
  simp only
  split
  · rfl
  · rename_i hcond
    have habsolute : (ofString name).isAbsolute = true := by
      simp only [Bool.or_eq_true, Bool.not_eq_true', not_or, Bool.not_eq_false] at hcond
      exact hcond.1
    -- the folder that one stands in does not matter for an absolute name
    have hresolve : (ofString name).resolve cwd = (ofString name).resolve [] := by
      unfold FilePath.resolve
      rw [if_pos habsolute, if_pos habsolute]
    rw [hresolve]
    cases ((ofString name).resolve []).relativeTo? root <;> rfl

theorem relativeTo?_resolve (hroot : root.Resolved) (habsolute : p.isAbsolute = true) :
    (p.resolve []).relativeTo? root =
      if root.segments <+: walk [] p.segments
      then some ⟨0, (walk [] p.segments).drop root.segments.length⟩ else none := by
  unfold FilePath.relativeTo? FilePath.resolve
  rw [if_pos habsolute, hroot.slashes]
  simp only [List.nil_append, decide_true, Bool.true_and, List.isPrefixOf_iff_prefix]

/-- A plain name is spelled as is usual for its place. -/
theorem Plain.spelled_eq (hroot : root.Resolved) (h : Plain root p) : spelled root p = usual root (root.placeFrom p) := by
  unfold spelled
  cases h with
  | within hrelative hup =>
    have hslashes : p.slashes = 0 := by simpa [FilePath.isAbsolute] using hrelative
    rw [if_pos (by rw [hrelative]; rfl), FilePath.placeFrom_of_relative hroot hrelative hup, usual,
      if_pos (List.prefix_append ..), List.drop_left]
    rw [← hslashes]
  | below habsolute hbelow hnul =>
    rw [if_neg (by rw [habsolute, hnul]; exact Bool.false_ne_true), relativeTo?_resolve hroot habsolute,
      FilePath.placeFrom_of_absolute habsolute, usual, if_pos hbelow, if_pos hbelow]
    rfl
  | outside hslashes houtside hup =>
    have habsolute : p.isAbsolute = true := by
      unfold FilePath.isAbsolute
      rw [hslashes]
      rfl
    have hwalk : walk [] p.segments = p.segments := FilePath.walk_of_not_mem hup []
    rw [relativeTo?_resolve hroot habsolute, FilePath.placeFrom_of_absolute habsolute, usual, if_neg houtside,
      if_neg houtside, Option.getD_none, ite_self, hwalk]
    rw [← hslashes]

/-- Any other name is spelled as it is written. -/
theorem spelled_of_not_plain (hroot : root.Resolved) (h : ¬ Plain root p) : spelled root p = p := by
  unfold spelled
  split
  · rfl
  · rename_i hcond
    simp only [Bool.or_eq_true, Bool.not_eq_true', not_or, Bool.not_eq_false, Bool.not_eq_true] at hcond
    rw [relativeTo?_resolve hroot hcond.1, if_neg fun hbelow => h (.below hcond.1 hbelow hcond.2)]
    rfl

theorem plain_usual {place : List String} (hup : ".." ∉ place) : Plain root (usual root place) := by
  unfold usual
  split
  · exact .within rfl fun hmem => hup (List.mem_of_mem_drop hmem)
  · rename_i houtside
    exact .outside rfl (by rwa [FilePath.walk_of_not_mem hup, List.nil_append]) hup

theorem placeFrom_usual (hroot : root.Resolved) {place : List String} (hup : ".." ∉ place) :
    root.placeFrom (usual root place) = place := by
  unfold usual
  split
  · rename_i hbelow
    obtain ⟨rest, rfl⟩ := hbelow
    rw [List.drop_left, FilePath.placeFrom_of_relative hroot rfl fun hmem => hup (List.mem_append_right _ hmem)]
  · rw [FilePath.placeFrom_of_absolute rfl, FilePath.walk_of_not_mem hup, List.nil_append]

theorem written_usual {place : List String} (h : ∀ s ∈ place, FilePath.IsSegment s) : (usual root place).Written := by
  unfold usual
  split
  · exact ⟨Nat.zero_le 2, fun s hs => h s (List.mem_of_mem_drop hs)⟩
  · exact ⟨Nat.le_succ 1, h⟩

/-- However it is spelled, a name stands for the same place. -/
theorem placeFrom_spelled (hroot : root.Resolved) (hp : p.Written) :
    root.placeFrom (spelled root p) = root.placeFrom p ∧ (spelled root p).Written := by
  have hplace := FilePath.isSegment_of_mem_placeFrom hroot hp
  by_cases hplain : Plain root p
  · rw [hplain.spelled_eq hroot]
    exact ⟨placeFrom_usual hroot fun hmem => (hplace _ hmem).2 rfl, written_usual fun s hs => (hplace s hs).1⟩
  · rw [spelled_of_not_plain hroot hplain]
    exact ⟨rfl, hp⟩

theorem spelled_eq_iff (hroot : root.Resolved) (hp : p.Written) (hq : q.Written) :
    spelled root p = spelled root q ↔
      p = q ∨ Plain root p ∧ Plain root q ∧ root.placeFrom p = root.placeFrom q := by
  -- a plain name never has the spelling of one that is not
  have hmixed : ∀ {p q : FilePath}, p.Written → Plain root p → ¬ Plain root q → spelled root p ≠ spelled root q := by
    intro p q hp hplain hnot he
    rw [hplain.spelled_eq hroot, spelled_of_not_plain hroot hnot] at he
    rw [← he] at hnot
    exact hnot (plain_usual fun hmem => (FilePath.isSegment_of_mem_placeFrom hroot hp _ hmem).2 rfl)
  constructor
  · intro he
    by_cases hplain : Plain root p
    · by_cases hplain' : Plain root q
      · refine .inr ⟨hplain, hplain', ?_⟩
        rw [← (placeFrom_spelled hroot hp).1, he, (placeFrom_spelled hroot hq).1]
      · exact absurd he (hmixed hp hplain hplain')
    · by_cases hplain' : Plain root q
      · exact absurd he.symm (hmixed hq hplain' hplain)
      · rw [spelled_of_not_plain hroot hplain, spelled_of_not_plain hroot hplain'] at he
        exact .inl he
  · rintro (rfl | ⟨hplain, hplain', he⟩)
    · rfl
    · rw [hplain.spelled_eq hroot, hplain'.spelled_eq hroot, he]

end Spelling

/-! ## Paths of files -/

/-- The file that a name stands for: a relative name is taken from the root, and all steps to a parent
are taken. -/
def fileOf (root : FilePath) (name : String) : List String :=
  root.placeFrom (ofString name)

section Paths

variable {root : FilePath}

theorem fileOf_relativePath (hroot : root.Resolved) (cwd : List String) (name : String) :
    fileOf root (relativePath cwd root name) = fileOf root name := by
  obtain ⟨hplace, hwritten⟩ := placeFrom_spelled hroot (FilePath.written_ofString name)
  unfold fileOf
  rw [relativePath_eq, FilePath.ofString_text hwritten, hplace]

/-- Names get the same path if they are written alike or are plain names of one file, and not
otherwise. -/
theorem relativePath_eq_iff (hroot : root.Resolved) (cwd : List String) (a b : String) :
    relativePath cwd root a = relativePath cwd root b ↔ ofString a = ofString b ∨
      Plain root (ofString a) ∧ Plain root (ofString b) ∧ fileOf root a = fileOf root b := by
  have ha := FilePath.written_ofString a
  have hb := FilePath.written_ofString b
  rw [relativePath_eq, relativePath_eq, FilePath.text_inj (placeFrom_spelled hroot ha).2 (placeFrom_spelled hroot hb).2,
    spelled_eq_iff hroot ha hb]
  rfl

theorem written_spelled (hp : p.Written) : (spelled root p).Written := by
  unfold spelled
  split
  · exact hp
  · rcases hr : (p.resolve []).relativeTo? root with _ | q
    · exact hp
    · unfold FilePath.relativeTo? at hr
      split at hr
      · cases hr
        refine ⟨Nat.zero_le 2, fun s hs => ?_⟩
        have hwalk := FilePath.mem_walk (List.mem_of_mem_drop hs)
        simp only [List.not_mem_nil, false_or, ite_self, List.nil_append] at hwalk
        exact hp.segments s hwalk.1
      · cases hr

theorem relativePath_ne_empty (cwd : List String) (root : FilePath) (name : String) :
    relativePath cwd root name ≠ "" := by
  rw [relativePath_eq]
  exact FilePath.text_ne_empty (written_spelled (FilePath.written_ofString name))

/-- In whatever tree, a path leads to the file of the name that it was made from. -/
theorem place_relativePath {loader : Loader} (hroot : root.Resolved) (hloader : loader.root = some root)
    (cwd : List String) (name : String) {tree : FileTree} {place : List String}
    (h : tree.place (loader.resolve (relativePath cwd root name)) = .ok place) : place = fileOf root name := by
  unfold Loader.resolve at h
  simp only [hloader] at h
  rw [← fileOf_relativePath hroot cwd name]
  exact FileTree.place_join hroot h

end Paths

/-! ## Reports -/

/-- A message under some name has a finding with some path. -/
def Message.Names (root : FilePath) (ws : Workspace) (m : Message) (name path : String) : Prop :=
  m.filename = some name ∧ ∃ d, m.finding root ws = some d ∧ d.path = some path

theorem Message.path_of_finding {root : FilePath} {ws : Workspace} {m : Message} {d : Diagnostic} {path : String}
    (h : m.finding root ws = some d) (hp : d.path = some path) :
    ∃ name, m.filename = some name ∧ path = relativePath ws.tree.cwd root name := by
  unfold Message.finding at h
  rcases hs : m.source root ws with _ | ⟨found, document⟩
  · rw [hs] at h
    cases h
    cases hp
  · rw [hs] at h
    obtain ⟨range, -, rfl⟩ := Option.map_eq_some_iff.1 h
    cases hp
    obtain ⟨name, hname, hsource⟩ := Option.bind_eq_some_iff.1 hs
    obtain ⟨_, -, hpair⟩ := Option.map_eq_some_iff.1 hsource
    obtain ⟨rfl, -⟩ := Prod.mk.inj hpair
    exact ⟨name, (Option.filter_eq_some_iff.1 hname).1, rfl⟩

theorem Message.Names.eq {root : FilePath} {ws : Workspace} {m : Message} {name path : String}
    (h : m.Names root ws name path) : path = relativePath ws.tree.cwd root name := by
  obtain ⟨hname, d, hfinding, hp⟩ := h
  obtain ⟨name', hname', hpath⟩ := Message.path_of_finding hfinding hp
  cases hname.symm.trans hname'
  exact hpath

section Kept

variable {settings : Settings} {root : FilePath}

/-- One message makes the loader keep the document of its own path at most. -/
theorem kept_convert (ws : Workspace) (m : Message) {path : String} (hnone : ws.loader.kept? path = none) :
    (convert settings root ws m).2.loader.kept? path = none ∨
      ∃ name, m.filename = some name ∧ path = relativePath ws.tree.cwd root name := by
  rcases hf : nonEmpty m.filename with _ | name
  · rw [convert_unnamed hf]
    exact .inl hnone
  · rw [convert_named hf]
    by_cases hp : path = relativePath ws.tree.cwd root name
    · exact .inr ⟨name, (Option.filter_eq_some_iff.1 hf).1, hp⟩
    · exact .inl (((ws.loader.load_frame ws.tree _).2 path hp).trans hnone)

/-- The documents that a conversion leaves in the loader were there before or are of reported files. -/
theorem kept_convertAll (messages : List Message) :
    ∀ (ws : Workspace) (fixes : FixTable) {path : String} {document : Document},
      (convertAll settings root ws fixes messages).workspace.loader.kept? path = some document →
      ws.loader.kept? path = none →
      ∃ m ∈ messages, ∃ name, m.filename = some name ∧ path = relativePath ws.tree.cwd root name := by
  induction messages with
  | nil =>
    intro ws fixes path document hkept hnone
    cases hkept.symm.trans hnone
  | cons m rest ih =>
    intro ws fixes path document hkept hnone
    rcases kept_convert ws m hnone with hlater | ⟨name, hname, hpath⟩
    · rcases hc : (convert settings root ws m).1 with fault | c
      · rw [convertAll_error hc] at hkept
        cases hkept.symm.trans hlater
      · rw [convertAll_ok hc] at hkept
        obtain ⟨m', hm', name, hname, hpath⟩ := ih _ _ hkept hlater
        -- later messages see the same files, so their paths are made from the same folder
        rw [(convert_view settings root ws m).1] at hpath
        exact ⟨m', List.mem_cons_of_mem _ hm', name, hname, hpath⟩
    · exact ⟨m, List.mem_cons_self .., name, hname, hpath⟩

end Kept

/-- A path that an analysis makes from the name in a message of its report. -/
def Round.Reports (round : Round) (backend : Backend) (path : String) : Prop :=
  ∃ m ∈ round.messages backend, ∃ name, m.filename = some name ∧
    path = relativePath (round.launched backend).tree.cwd round.root name

section Rounds

variable {backend : Backend} {round : Round} {ds : List Diagnostic}

theorem Round.reports_of_finding (hds : (round.response backend).findings = .ok ds) {d : Diagnostic} (hd : d ∈ ds)
    {path : String} (hp : d.path = some path) : round.Reports backend path := by
  rw [(round.response_ok backend hds).1] at hd
  obtain ⟨m, hm, hfinding⟩ := List.mem_filterMap.1 hd
  exact ⟨m, hm, Message.path_of_finding hfinding hp⟩

theorem Round.reports_of_key (hds : (round.response backend).findings = .ok ds) {path : String}
    (hkey : path ∈ (Grouping.ofDiagnostics ds).groups.keys) : round.Reports backend path := by
  obtain ⟨d, hd⟩ := List.exists_mem_of_ne_nil _ ((Grouping.mem_keys_groups_iff ds path).1 hkey)
  exact round.reports_of_finding hds (List.mem_filter.1 hd).1 (path_of_mem_findingsOf hd)

/-- A document that a run over the findings leaves in the loader was there before the analysis, or the
analysis left it there, or it was read for a group. -/
theorem Round.reports_of_kept (hds : (round.response backend).findings = .ok ds) (setup : Run.Setup)
    (schedule : List Run.Turn) {path : String} {document : Document} (hnone : round.workspace.loader.kept? path = none)
    (hkept : (Run.overFindings setup schedule (round.response backend).workspace ds).2.2.loader.kept? path =
      some document) : round.Reports backend path := by
  obtain ⟨works, hx⟩ := Run.explains_filesRun setup schedule (round.response backend).workspace ds
  rw [Run.workspace_overFindings] at hkept
  by_cases hw : ∃ w ∈ works, w.path = path
  · obtain ⟨w, hw, rfl⟩ := hw
    exact round.reports_of_key hds (List.mem_map_of_mem (hx.group w hw))
  · rw [hx.frame path fun w hm hp => hw ⟨w, hm, hp⟩] at hkept
    rcases round.response_cases backend with ⟨fault, hf, -⟩ | ⟨-, -, hworkspace⟩
    · rw [hds] at hf
      cases hf
    · rw [hworkspace] at hkept
      exact kept_convertAll _ _ _ hkept hnone

/-- Where all names are plain, paths that stand for one file are the same. -/
theorem Round.Reports.eq_of_file (hroot : round.root.Resolved)
    (hplain : ∀ m ∈ round.messages backend, ∀ name ∈ m.filename, Plain round.root (ofString name)) {f g : String}
    (hf : round.Reports backend f) (hg : round.Reports backend g)
    (hfile : fileOf round.root f = fileOf round.root g) : f = g := by
  obtain ⟨m, hm, a, ha, rfl⟩ := hf
  obtain ⟨n, hn, b, hb, rfl⟩ := hg
  rw [fileOf_relativePath hroot, fileOf_relativePath hroot] at hfile
  exact (relativePath_eq_iff hroot _ a b).2 (.inr ⟨hplain m hm a ha, hplain n hn b hb, hfile⟩)

end Rounds

/-- Things that one test picks out are at most one if they share a key and no key has two. -/
theorem length_filter_le_one {α : Type} {xs : List α} {p : α → Bool} {key : α → String}
    (hkey : ∀ x ∈ xs, ∀ y ∈ xs, p x = true → p y = true → key x = key y)
    (hone : ∀ k, (xs.filter (key · = k)).length ≤ 1) : (xs.filter p).length ≤ 1 := by
  rcases hf : xs.filter p with _ | ⟨x, rest⟩
  · exact Nat.zero_le 1
  · obtain ⟨hmem, hpx⟩ := List.mem_filter.1 (by rw [hf]; exact List.mem_cons_self .. : x ∈ xs.filter p)
    refine Nat.le_trans ?_ (hone (key x))
    rw [← hf, ← List.countP_eq_length_filter, ← List.countP_eq_length_filter]
    exact List.countP_mono_left fun y hy hpy => decide_eq_true (hkey y hy x hmem hpy hpx)

/-- The path of a finding leads to the file that its message names. Two findings have the same path
exactly if their messages name a file alike or by plain names. So if all the names of a report are
plain, no run knows a file by two paths: the findings of a file are in one group, the loader reads it
under one path, and the writer is called for it at most once. -/
theorem same_path_iff (backend : Backend) (round : Round) (hroot : round.root.Resolved)
    (hloader : round.workspace.loader.root = some round.root) {ds : List Diagnostic}
    (hds : (round.response backend).findings = .ok ds) :
    (∀ m ∈ round.messages backend, ∀ name f, m.Names round.root (round.launched backend) name f →
      fileOf round.root f = fileOf round.root name ∧
      ∀ (tree : FileTree) place, tree.place (round.workspace.loader.resolve f) = .ok place →
        place = fileOf round.root name) ∧
    (∀ m ∈ round.messages backend, ∀ n ∈ round.messages backend, ∀ a b f g,
      m.Names round.root (round.launched backend) a f → n.Names round.root (round.launched backend) b g →
      (f = g ↔ ofString a = ofString b ∨ Plain round.root (ofString a) ∧ Plain round.root (ofString b) ∧
        fileOf round.root a = fileOf round.root b)) ∧
    ((∀ m ∈ round.messages backend, ∀ name ∈ m.filename, Plain round.root (ofString name)) →
      (∀ d ∈ ds, ∀ e ∈ ds, ∀ f g, d.path = some f → e.path = some g →
        fileOf round.root f = fileOf round.root g → f = g) ∧
      ∀ (setup : Run.Setup) (schedule : List Run.Turn),
        (∀ f g, round.workspace.loader.kept? f = none → round.workspace.loader.kept? g = none →
          ∀ document document',
            (Run.overFindings setup schedule (round.response backend).workspace ds).2.2.loader.kept? f = some document →
            (Run.overFindings setup schedule (round.response backend).workspace ds).2.2.loader.kept? g = some document' →
            fileOf round.root f = fileOf round.root g → f = g) ∧
        ∀ place, ((Run.overFindings setup schedule (round.response backend).workspace ds).2.1.calls.filter
          (fileOf round.root ·.path = place)).length ≤ 1) := by
  refine ⟨fun m _ name f hnames => ?_, fun m _ n _ a b f g ha hb => ?_, fun hplain => ?_⟩
  · rw [hnames.eq]
    exact ⟨fileOf_relativePath hroot _ name, fun tree place => place_relativePath hroot hloader _ name⟩
  · rw [ha.eq, hb.eq]
    exact relativePath_eq_iff hroot _ a b
  refine ⟨fun d hd e he f g hf hg => Round.Reports.eq_of_file hroot hplain (round.reports_of_finding hds hd hf)
    (round.reports_of_finding hds he hg), fun setup schedule => ⟨?_, fun place => ?_⟩⟩
  · intro f g hf hg document document' hkept hkept'
    exact Round.Reports.eq_of_file hroot hplain (round.reports_of_kept hds setup schedule hf hkept)
      (round.reports_of_kept hds setup schedule hg hkept')
  · obtain ⟨works, hx⟩ := Run.explains_filesRun setup schedule (round.response backend).workspace ds
    rw [Run.calls_overFindings]
    refine length_filter_le_one (fun c hc c' hc' hp hp' => ?_) hx.length_calls
    refine Round.Reports.eq_of_file hroot hplain (round.reports_of_key hds (hx.key_of_call hc))
      (round.reports_of_key hds (hx.key_of_call hc')) ?_
    rw [of_decide_eq_true hp, of_decide_eq_true hp']

/-! ### A file by two names -/

/-- A folder with one file and a folder in it. -/
def rootedWorkspace : Workspace :=
  ⟨⟨[(["r"], .folder), (["r", "s"], .folder), (["r", "a"], .file [97, 98, 99])], ["r"]⟩,
    Loader.new (some ⟨1, ["r"]⟩) "utf-8"⟩

/-- A report that names the file first from the folder and then from the top. -/
def twiceNamed : String :=
  "[\x7b\"filename\":\"a\",\"location\":\x7b\"row\":1,\"column\":1\x7d," ++
  "\"end_location\":\x7b\"row\":1,\"column\":2\x7d\x7d," ++
  "\x7b\"filename\":\"/r/a\",\"location\":\x7b\"row\":1,\"column\":3\x7d," ++
  "\"end_location\":\x7b\"row\":1,\"column\":4\x7d\x7d]"

def twiceNamedRound : Round :=
  ⟨Launcher.given ⟨twiceNamed, 0, ""⟩, ⟨1, ["r"]⟩, [], rootedWorkspace⟩

def twiceNamedFindings : List Diagnostic :=
  [⟨"syntax-error", some "a", 0, 1, ""⟩, ⟨"syntax-error", some "a", 2, 1, ""⟩]

theorem twiceNamed_facts :
    twiceNamedRound.messages (Backend.new Settings.default) =
      [⟨none, some "a", "", ⟨1, 1⟩, ⟨1, 2⟩, none, none⟩, ⟨none, some "/r/a", "", ⟨1, 3⟩, ⟨1, 4⟩, none, none⟩] ∧
    (twiceNamedRound.response (Backend.new Settings.default)).findings = .ok twiceNamedFindings := by
  decide +kernel

theorem plain_twiceNamed :
    ∀ m ∈ twiceNamedRound.messages (Backend.new Settings.default), ∀ name ∈ m.filename,
      Plain ⟨1, ["r"]⟩ (ofString name) := by
  rw [twiceNamed_facts.1]
  intro m hm name hname
  simp only [List.mem_cons, List.not_mem_nil, or_false] at hm
  rcases hm with rfl | rfl
  · cases hname
    exact .within (by decide +kernel) (by decide +kernel)
  · cases hname
    exact .below (by decide +kernel) (by decide +kernel) (by decide +kernel)

theorem twiceNamed_same_path :
    fileOf ⟨1, ["r"]⟩ "a" = ["r", "a"] ∧ fileOf ⟨1, ["r"]⟩ "/r/a" = ["r", "a"] ∧
    twiceNamedFindings.map (·.path) = [some "a", some "a"] ∧
    ∀ (setup : Run.Setup) (schedule : List Run.Turn), ((Run.overFindings setup schedule
      (twiceNamedRound.response (Backend.new Settings.default)).workspace twiceNamedFindings).2.1.calls.filter
        (fileOf ⟨1, ["r"]⟩ ·.path = ["r", "a"])).length ≤ 1 := by
  have hroot : twiceNamedRound.root.Resolved := by
    refine ⟨rfl, fun s hs => ?_, by decide⟩
    rw [List.mem_singleton.1 hs]
    exact ⟨by decide, by decide, by decide +kernel⟩
  obtain ⟨-, -, hruns⟩ := same_path_iff (Backend.new Settings.default) twiceNamedRound hroot rfl twiceNamed_facts.2
  exact ⟨by decide +kernel, by decide +kernel, rfl, fun setup schedule => ((hruns plain_twiceNamed).2 setup schedule).2 ["r", "a"]⟩

/-! ### A name with a step to the parent -/

/-- A message with a fix that replaces what it is about. -/
def replacing (name : String) (column : Int) (content : String) : Message :=
  ⟨none, some name, "", ⟨1, column⟩, ⟨1, column + 1⟩,
    some ⟨.safe, none, [⟨content, ⟨1, column⟩, ⟨1, column + 1⟩⟩]⟩, none⟩

/-- What two messages on one file convert to. The second one takes a step down and up again. -/
def splitConversion : Conversion :=
  convertAll Settings.default ⟨1, ["r"]⟩ rootedWorkspace [] [replacing "a" 1 "x", replacing "s/../a" 3 "y"]

def splitRun : Summary × Journal × Workspace :=
  Run.overFindings ⟨(Backend.mk Settings.default splitConversion.fixes).oracle, ⟨Rules.none, false, false, 1⟩,
    Token.never, Run.defaultWriter splitConversion.workspace.loader⟩ [] splitConversion.workspace
    splitConversion.diagnostics

/-- The file is read and written under both names, and the first write is lost. -/
theorem parent_step_splits_file :
    fileOf ⟨1, ["r"]⟩ "a" = fileOf ⟨1, ["r"]⟩ "s/../a" ∧
    splitConversion.diagnostics.map (·.path) = [some "a", some "s/../a"] ∧
    splitRun.2.1.calls.map (fun call => (call.path, call.content)) = [("a", "xbc"), ("s/../a", "aby")] ∧
    splitRun.1.writtenPaths = ["a", "s/../a"] ∧
    splitRun.2.2.tree.node? ["r", "a"] = some (.file [97, 98, 121]) := by
  decide +kernel

end Amend.Report
