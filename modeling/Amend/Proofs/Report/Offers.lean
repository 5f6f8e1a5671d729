/-
The fixes on offer. An analysis that comes through has one finding for each message of its report, in
the order of the report, but for messages whose place is not in their document; and it answers for a
finding with the fixes of just those messages that convert to it. Earlier reports leave no trace in
these answers, and an analysis whose analyzer fails leaves the answers as they were.
-/
import Amend.Proofs.Merge
import Amend.Proofs.Report.Bounds

namespace Amend.Report

/-! ## Fixes of one finding -/

theorem FixTable.of_add (fixes : FixTable) (d other : Diagnostic) (c : Candidate) :
    (fixes.add d c).of other =
      if d = other then (if c ∈ fixes.of d then fixes.of d else fixes.of d ++ [c]) else fixes.of other := by
  unfold add of
  rw [Table.get?_alter]
  by_cases hd : d = other
  · simp [hd]
  · simp [hd]

/-- The fix that a converted message has for a finding. -/
def Converted.offerFor (d : Diagnostic) (c : Converted) : Option Candidate :=
  if c.diagnostic = some d then c.candidate else none

theorem of_addTo (fixes : FixTable) (c : Converted) (d : Diagnostic) :
    (c.addTo fixes).of d = match c.offerFor d with
      | none => fixes.of d
      | some fix => if fix ∈ fixes.of d then fixes.of d else fixes.of d ++ [fix] := by
  obtain ⟨diagnostic, offered, journal⟩ := c
  rcases diagnostic with _ | d'
  · rfl
  rcases offered with _ | fix
  · simp [Converted.addTo, Converted.offerFor]
  simp only [Converted.addTo, Converted.offerFor, FixTable.of_add, Option.some.injEq]
  by_cases hd : d' = d
  · subst hd; simp
  · simp [hd]

/-- What is on offer for a finding is what converted messages have for it, each fix once. -/
theorem of_foldl (cs : List Converted) (d : Diagnostic) :
    (cs.foldl Converted.addTo []).of d = firstOccurrences (cs.filterMap (·.offerFor d)) := by
  induction cs using List.reverseRecOn with
  | nil => rfl
  | append_singleton cs c ih =>
    rw [List.foldl_append, List.foldl_cons, List.foldl_nil, of_addTo, ih, List.filterMap_append]
    rcases ho : c.offerFor d with _ | fix
    · simp [ho]
    · have hlast : [c].filterMap (·.offerFor d) = [fix] := by simp [ho]
      rw [hlast, firstOccurrences_concat]
      simp only [mem_firstOccurrences]

/-! ## Messages of a report -/

/-- The file that a message is about and its document, if it names a file that can be read. -/
def Message.source (root : FilePath) (ws : Workspace) (m : Message) : Option (String × Document) :=
  (nonEmpty m.filename).bind fun filename =>
    let path := relativePath ws.tree.cwd root filename
    (ws.load path).1.toOption.map (path, ·)

/-- The finding of a message. There is none if the place of the message is not in its document. -/
def Message.finding (root : FilePath) (ws : Workspace) (m : Message) : Option Diagnostic :=
  match m.source root ws with
  | none => some (homeless m)
  | some (path, document) =>
    (offsets (LineIndex.ofText document.text) m.start m.stop).toOption.map fun (first, last) =>
      ⟨m.codeText, some path, first, max ((last : Int) - first) 0, m.message⟩

/-- The fix that a message offers for its document. -/
def Message.offer (settings : Settings) (root : FilePath) (ws : Workspace) (m : Message) : Option Candidate :=
  (m.source root ws).bind fun (path, document) =>
    (candidate settings (LineIndex.ofText document.text) path m).2

/-- The fix that a message offers for a finding: its own, if it is the message of this finding. -/
def Message.offerFor (settings : Settings) (root : FilePath) (ws : Workspace) (d : Diagnostic) (m : Message) :
    Option Candidate :=
  if m.finding root ws = some d then m.offer settings root ws else none

section Messages

variable {settings : Settings} {root : FilePath} {ws : Workspace} {m : Message} {c : Converted}

theorem Message.finding_eq_none_iff : m.finding root ws = none ↔
    ∃ path document fault, m.source root ws = some (path, document) ∧
      offsets (LineIndex.ofText document.text) m.start m.stop = .error fault := by
  unfold Message.finding
  rcases m.source root ws with _ | ⟨path, document⟩
  · simp
  simp only [Option.map_eq_none_iff, Option.some.injEq, Prod.mk.injEq]
  constructor
  · intro hnone
    rcases ho : offsets (LineIndex.ofText document.text) m.start m.stop with fault | range
    · exact ⟨path, document, fault, ⟨rfl, rfl⟩, ho⟩
    · rw [ho] at hnone
      cases hnone
  · rintro ⟨_, _, fault, ⟨rfl, rfl⟩, ho⟩
    rw [ho]
    rfl

theorem convertIn_diagnostic (settings : Settings) (path : String) (document : Document) (m : Message) :
    (convertIn settings path document m).diagnostic =
      (offsets (LineIndex.ofText document.text) m.start m.stop).toOption.map fun (first, last) =>
        ⟨m.codeText, some path, first, max ((last : Int) - first) 0, m.message⟩ := by
  unfold convertIn
  rcases ho : offsets (LineIndex.ofText document.text) m.start m.stop with fault | ⟨first, last⟩ <;>
    simp only [ho] <;> rfl

theorem convertIn_offer {path : String} {document : Document} {d : Diagnostic}
    (h : (convertIn settings path document m).diagnostic = some d) :
    (convertIn settings path document m).candidate =
      (candidate settings (LineIndex.ofText document.text) path m).2 := by
  unfold convertIn at h ⊢
  rcases ho : offsets (LineIndex.ofText document.text) m.start m.stop with fault | ⟨first, last⟩
  · simp only [ho, reduceCtorEq] at h
  · simp only [ho]

/-- The conversion of a message that names a file: its result is settled by what loading the file gives. -/
theorem convert_named {filename : String} (hf : nonEmpty m.filename = some filename) :
    convert settings root ws m =
      (match (ws.load (relativePath ws.tree.cwd root filename)).1 with
        | .ok document => .ok (convertIn settings (relativePath ws.tree.cwd root filename) document m)
        | .error fault =>
          if fault.isUnreadable then .ok ⟨some (homeless m), none, [.note .warning .report
            s!"Cannot read {relativePath ws.tree.cwd root filename} reported by ruff: {fault.message}"]⟩
          else .error fault,
        (ws.load (relativePath ws.tree.cwd root filename)).2) := by
  unfold convert
  simp only [hf]
  rcases ws.load (relativePath ws.tree.cwd root filename) with ⟨fault | document, later⟩
  · simp only
    split <;> rfl
  · rfl

theorem convert_unnamed (hf : nonEmpty m.filename = none) :
    convert settings root ws m = (.ok ⟨some (homeless m), none, []⟩, ws) := by
  unfold convert
  simp only [hf]

/-- A message that converts has its finding, and offers its fix for this finding alone. -/
theorem convert_ok (h : (convert settings root ws m).1 = .ok c) :
    c.diagnostic = m.finding root ws ∧ ∀ d, c.offerFor d = m.offerFor settings root ws d := by
  have hfound : c.diagnostic = m.finding root ws ∧
      ∀ d, c.diagnostic = some d → c.candidate = m.offer settings root ws := by
    unfold Message.finding Message.offer Message.source
    rcases hf : nonEmpty m.filename with _ | filename
    · rw [convert_unnamed hf] at h
      cases h
      exact ⟨rfl, fun _ _ => rfl⟩
    · rw [convert_named hf] at h
      simp only [Option.bind_some]
      rcases hl : (ws.load (relativePath ws.tree.cwd root filename)).1 with fault | document
      · simp only [hl] at h
        split at h
        · cases h
          exact ⟨rfl, fun _ _ => rfl⟩
        · cases h
      · simp only [hl] at h
        cases h
        exact ⟨convertIn_diagnostic settings _ document m, fun d hd => convertIn_offer hd⟩
  obtain ⟨hfinding, hoffer⟩ := hfound
  refine ⟨hfinding, fun d => ?_⟩
  unfold Converted.offerFor Message.offerFor
  rw [← hfinding]
  by_cases hd : c.diagnostic = some d
  · rw [if_pos hd, if_pos hd, hoffer d hd]
  · rw [if_neg hd, if_neg hd]

/-- Converting a message changes neither the files nor what a load gives. -/
theorem convert_view (settings : Settings) (root : FilePath) (ws : Workspace) (m : Message) :
    (convert settings root ws m).2.tree = ws.tree ∧
      ∀ path, ((convert settings root ws m).2.load path).1 = (ws.load path).1 := by
  rcases hf : nonEmpty m.filename with _ | filename
  · rw [convert_unnamed hf]
    exact ⟨rfl, fun _ => rfl⟩
  · rw [convert_named hf]
    exact ⟨rfl, fun path => ws.loader.load_load ws.tree _ path⟩

theorem convert_convert (settings : Settings) (root : FilePath) (ws : Workspace) (m n : Message) :
    (convert settings root (convert settings root ws m).2 n).1 = (convert settings root ws n).1 := by
  obtain ⟨htree, hload⟩ := convert_view settings root ws m
  rcases hf : nonEmpty n.filename with _ | filename
  · rw [convert_unnamed hf, convert_unnamed hf]
  · rw [convert_named hf, convert_named hf, htree, hload]

/-- A conversion that comes through converts every message as it would be converted first. -/
theorem convertAll_each (messages : List Message) : ∀ (ws : Workspace) (fixes : FixTable),
    (convertAll settings root ws fixes messages).ending = .ok () →
    ∃ cs, List.Forall₂ (fun m c => (convert settings root ws m).1 = .ok c) messages cs ∧
      (convertAll settings root ws fixes messages).diagnostics = cs.flatMap (·.diagnostic.toList) ∧
      (convertAll settings root ws fixes messages).fixes = cs.foldl Converted.addTo fixes := by
  induction messages with
  | nil => exact fun ws fixes _ => ⟨[], .nil, rfl, rfl⟩
  | cons m rest ih =>
    intro ws fixes hend
    rcases hc : (convert settings root ws m).1 with fault | c
    · rw [convertAll_error hc] at hend
      cases hend
    · rw [convertAll_ok hc] at hend ⊢
      obtain ⟨cs, heach, hdiagnostics, hfixes⟩ := ih _ _ hend
      simp only [convert_convert] at heach
      refine ⟨c :: cs, .cons hc heach, ?_, hfixes⟩
      rw [List.flatMap_cons, ← hdiagnostics]
      rfl

end Messages

/-! ## Analyses one after the other -/

theorem filterMap_of_forall₂ {α β γ : Type} {f : α → Option γ} {g : β → Option γ} {as : List α} {bs : List β}
    (h : List.Forall₂ (fun a b => g b = f a) as bs) : bs.filterMap g = as.filterMap f := by
  induction h with
  | nil => rfl
  | cons hab _ ih => rw [List.filterMap_cons, List.filterMap_cons, hab, ih]

/-- One analysis that a backend is asked for. -/
structure Round where
  launcher : Launcher
  root : FilePath
  paths : List String
  workspace : Workspace

namespace Round

variable (round : Round) (backend : Backend)

def response : Backend.Response :=
  backend.analyze round.launcher round.root round.paths round.workspace

/-- The messages of the report that is read. -/
def messages : List Message :=
  backend.messages round.launcher round.root round.paths round.workspace

/-- The workspace once the analyzer has run. -/
def launched : Workspace :=
  { round.workspace with
    tree := (round.launcher.launch round.workspace.tree (backend.settings.commandLine round.paths) round.root).2 }

/-- What the report converts to. -/
def conversion : Conversion :=
  convertAll backend.settings round.root (round.launched backend) [] (round.messages backend)

/-- An analysis fails before its report is converted and leaves the backend as it was, or the fixes of
the backend are those of the report and of no other. -/
theorem response_cases :
    (∃ fault, (round.response backend).findings = .error fault ∧ (round.response backend).backend = backend) ∨
    (round.response backend).backend = { backend with fixes := (round.conversion backend).fixes } ∧
      ((round.response backend).findings = match (round.conversion backend).ending with
        | .error fault => .error (.load fault)
        | .ok () => .ok (round.conversion backend).diagnostics) ∧
      (round.response backend).workspace = (round.conversion backend).workspace := by
  obtain ⟨launcher, root, paths, ws⟩ := round
  unfold response conversion messages launched Backend.messages Backend.analyze
  by_cases havail : launcher.available ws.tree ((backend.settings.commandLine paths).headD "") = true
  · simp only [havail, Bool.not_true, Bool.false_eq_true, if_false]
    rcases hl : launcher.launch ws.tree (backend.settings.commandLine paths) root with ⟨failure | finished, tree⟩
    · simp only [hl]
      exact .inl ⟨_, rfl, trivial⟩
    simp only [hl, Backend.receive]
    by_cases hcode : finished.code ≠ 0
    · rw [if_pos hcode]
      exact .inl ⟨_, rfl, rfl⟩
    rw [if_neg hcode]
    rcases hp : parse finished.stdout with (fault | digits) | messages
    · exact .inl ⟨_, rfl, rfl⟩
    · exact .inl ⟨_, rfl, rfl⟩
    · right
      simp only [Except.toOption, Option.getD_some]
      rcases (convertAll backend.settings root { ws with tree := tree } [] messages).ending with fault | _
      · exact ⟨rfl, rfl, rfl⟩
      · exact ⟨rfl, rfl, rfl⟩
  · simp only [havail, Bool.not_false, if_true]
    exact .inl ⟨_, rfl, trivial⟩

theorem response_settings : (round.response backend).backend.settings = backend.settings := by
  rcases round.response_cases backend with ⟨-, -, hb⟩ | ⟨hb, -⟩ <;> rw [hb]

/-- An analyzer that fails leaves the backend as it was. -/
theorem response_refused {fault : AnalyzerFault} (h : (round.response backend).findings = .error (.analyzer fault)) :
    (round.response backend).backend = backend := by
  rcases round.response_cases backend with ⟨-, -, hb⟩ | ⟨-, hf, -⟩
  · exact hb
  · rw [h] at hf
    split at hf <;> cases hf

/-- The findings of an analysis that comes through, and what it answers for a finding. -/
theorem response_ok {ds : List Diagnostic} (h : (round.response backend).findings = .ok ds) :
    ds = (round.messages backend).filterMap (·.finding round.root (round.launched backend)) ∧
    ∀ d, (round.response backend).backend.fixes.of d = firstOccurrences ((round.messages backend).filterMap
      (·.offerFor backend.settings round.root (round.launched backend) d)) := by
  rcases round.response_cases backend with ⟨fault, hf, -⟩ | ⟨hb, hf, -⟩
  · rw [h] at hf
    cases hf
  rw [h] at hf
  rcases hend : (round.conversion backend).ending with fault | _
  · rw [hend] at hf
    cases hf
  rw [hend] at hf
  cases hf
  obtain ⟨cs, heach, hdiagnostics, hfixes⟩ := convertAll_each _ _ _ hend
  constructor
  · show (round.conversion backend).diagnostics = _
    unfold conversion
    rw [hdiagnostics, ← List.filterMap_eq_flatMap_toList]
    exact filterMap_of_forall₂ (heach.imp fun m c hc => (convert_ok hc).1)
  · intro d
    rw [hb]
    show (round.conversion backend).fixes.of d = _
    unfold conversion
    rw [hfixes, of_foldl]
    exact congrArg _ (filterMap_of_forall₂ (heach.imp fun m c hc => (convert_ok hc).2 d))

end Round

namespace Backend

/-- The backend that analyses one after the other leave. -/
def afterRounds (backend : Backend) (rounds : List Round) : Backend :=
  rounds.foldl (fun backend round => (round.response backend).backend) backend

/-- The analyzer fails in every one of some analyses. -/
def Refused (backend : Backend) : List Round → Prop
  | [] => True
  | round :: rest => (∃ fault, (round.response backend).findings = .error (.analyzer fault)) ∧
      (round.response backend).backend.Refused rest

theorem afterRounds_singleton (backend : Backend) (round : Round) :
    backend.afterRounds [round] = (round.response backend).backend := rfl

theorem settings_afterRounds (rounds : List Round) : ∀ backend : Backend,
    (backend.afterRounds rounds).settings = backend.settings := by
  induction rounds with
  | nil => exact fun _ => rfl
  | cons round rest ih => exact fun backend => (ih _).trans (round.response_settings backend)

/-- Analyses whose analyzer fails leave the backend as it was, however many there are. -/
theorem afterRounds_of_refused {rounds : List Round} : ∀ {backend : Backend},
    backend.Refused rounds → backend.afterRounds rounds = backend := by
  induction rounds with
  | nil => exact fun _ => rfl
  | cons round rest ih =>
    rintro backend ⟨⟨fault, hfault⟩, hrest⟩
    exact (ih hrest).trans (round.response_refused backend hfault)

end Backend

/-- After any analyses at all, an analysis that comes through has the findings of its own messages, and
from then on, for as long as the analyzer only fails, a finding is answered with the fixes of the
messages that convert to it. An analysis whose analyzer fails changes no answer. -/
theorem answers_of_last_report (settings : Settings) (earlier : List Round) (round : Round) {backend : Backend}
    (hbackend : (Backend.new settings).afterRounds earlier = backend) :
    (∀ ds, (round.response backend).findings = .ok ds →
      ds = (round.messages backend).filterMap (·.finding round.root (round.launched backend)) ∧
      (∀ m : Message, m.finding round.root (round.launched backend) = none ↔
        ∃ path, ∃ document : Document, ∃ fault, m.source round.root (round.launched backend) = some (path, document) ∧
          offsets (LineIndex.ofText document.text) m.start m.stop = .error fault) ∧
      ∀ later, (round.response backend).backend.Refused later → ∀ d document,
        ((round.response backend).backend.afterRounds later).oracle.answer d document =
          .ok (firstOccurrences ((round.messages backend).filterMap fun m =>
            if m.finding round.root (round.launched backend) = some d
            then m.offer settings round.root (round.launched backend) else none))) ∧
    (∀ fault, (round.response backend).findings = .error (.analyzer fault) → ∀ d document,
      (round.response backend).backend.oracle.answer d document = backend.oracle.answer d document) := by
  have hsettings : backend.settings = settings := by
    rw [← hbackend, Backend.settings_afterRounds]
    rfl
  constructor
  · intro ds hds
    obtain ⟨hfindings, hanswers⟩ := round.response_ok backend hds
    refine ⟨hfindings, fun m => Message.finding_eq_none_iff, fun later hlater d document => ?_⟩
    rw [Backend.afterRounds_of_refused hlater, ← hsettings]
    exact congrArg _ (hanswers d)
  · intro fault hfault d document
    rw [round.response_refused backend hfault]

/-! ### A report after another -/

/-- An analysis of two files whose analyzer ends with an output and a code. -/
def sampleRound (output : String) (code : Int) : Round :=
  ⟨Launcher.given ⟨output, code, ""⟩, FilePath.ofString "/", [], Run.sampleWorkspace⟩

theorem sample_answers_of_last_report :
    [sampleFinding] = ((sampleRound sampleReport 0).messages (Backend.new Settings.default)).filterMap
      (·.finding (FilePath.ofString "/") Run.sampleWorkspace) ∧
    ⟨"syntax-error", "", [.delete 0 1], some "syntax-error"⟩ ∈ sampleResponse.backend.fixes.of sampleFinding ∧
    (((sampleRound "" 0).response sampleResponse.backend).backend.afterRounds [sampleRound "" 2]).oracle.answer
      sampleFinding ⟨"a", "12"⟩ = .ok [] := by
  obtain ⟨hds, hoffer, -, -⟩ := sampleResponse_facts
  obtain ⟨hfirst, -⟩ := answers_of_last_report Settings.default [] (sampleRound sampleReport 0) rfl
  -- the second report has no messages, and the analyzer fails after it
  obtain ⟨hsecond, -⟩ := answers_of_last_report Settings.default [sampleRound sampleReport 0] (sampleRound "" 0)
    (Backend.afterRounds_singleton _ _)
  exact ⟨(hfirst _ hds).1, hoffer, (hsecond [] rfl).2.2 [sampleRound "" 2] ⟨⟨_, rfl⟩, trivial⟩ _ _⟩

end Amend.Report
