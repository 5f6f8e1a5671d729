/-
A report stays within the documents. Whatever rows and columns it names, the findings that it converts
to lie within their documents, and so do both ends of every edit on offer; the edit fits if its end is
not before its start, which is so for places in order. Where all places are in order and edits are
taken as they are, no merge of a run fails.
-/
import Amend.Proofs.Report.Conversion
import Amend.Proofs.Run.Report
import Amend.Report.Analysis

namespace Amend.Report

/-- The order of places: by row, and within a row by column. -/
instance : LE Location :=
  ⟨fun a b => a.row < b.row ∨ a.row = b.row ∧ a.column ≤ b.column⟩

instance (a b : Location) : Decidable (a ≤ b) :=
  inferInstanceAs (Decidable (_ ∨ _))

/-! ## Places -/

theorem offsets_eq_ok_iff {index : LineIndex} {start stop : Location} {first last : Nat} :
    offsets index start stop = .ok (first, last) ↔
      index.offset start.row start.column = .ok first ∧ index.offset stop.row stop.column = .ok last := by
  unfold offsets
  rcases index.offset start.row start.column with e | n
  · simp [bind, Except.bind]
  · rcases index.offset stop.row stop.column with e | n'
    · simp [bind, Except.bind]
    · simp [bind, Except.bind, pure, Except.pure]

theorem ordered_ofText (text : String) : (LineIndex.ofText text).Ordered :=
  LineIndex.ordered_ofChars text.toList

/-- Places that have offsets have them within the document. -/
theorem offsets_le {document : Document} {start stop : Location} {first last : Nat}
    (h : offsets (LineIndex.ofText document.text) start stop = .ok (first, last)) :
    first ≤ document.size ∧ last ≤ document.size := by
  obtain ⟨hfirst, hlast⟩ := offsets_eq_ok_iff.1 h
  have hindex := ordered_ofText document.text
  exact ⟨hindex.offset_le hfirst, hindex.offset_le hlast⟩

/-- An edit goes from the one reported place of a document to the other. Both lie within the document,
and it fits if they are in order. -/
structure Inside (document : Document) (reported : ReportEdit) (edit : Edit) : Prop where
  first : (LineIndex.ofText document.text).offset reported.start.row reported.start.column =
    .ok edit.span.start.toNat
  last : (LineIndex.ofText document.text).offset reported.stop.row reported.stop.column =
    .ok edit.span.stop.toNat
  start : 0 ≤ edit.span.start ∧ edit.span.start ≤ document.size
  stop : 0 ≤ edit.span.stop ∧ edit.span.stop ≤ document.size
  fits : edit.span.fits document.size = true ↔ edit.span.start ≤ edit.span.stop
  ordered : reported.start ≤ reported.stop → edit.span.start ≤ edit.span.stop

theorem inside_of_offsets {document : Document} {e : ReportEdit} {first last : Nat}
    (h : offsets (LineIndex.ofText document.text) e.start e.stop = .ok (first, last)) :
    Inside document e (.replace first ((last : Int) - first) e.content) := by
  obtain ⟨hfirst, hlast⟩ := offsets_eq_ok_iff.1 h
  obtain ⟨hstart, hstop⟩ := offsets_le h
  have hend : (Edit.replace first ((last : Int) - first) e.content).span.stop = last := by
    simp only [Edit.replace, Span.stop]
    omega
  have hbegin : (Edit.replace first ((last : Int) - first) e.content).span.start = first := rfl
  have hlength : (Edit.replace first ((last : Int) - first) e.content).span.length = (last : Int) - first := rfl
  refine ⟨by rw [hbegin]; exact hfirst, by rw [hend]; exact hlast, by rw [hbegin]; omega, by rw [hend]; omega, ?_, ?_⟩
  · unfold Span.fits
    rw [hbegin, hend, hlength]
    simp only [Bool.and_eq_true, decide_eq_true_eq]
    omega
  · intro hle
    rw [hbegin, hend]
    exact Int.ofNat_le.2 ((ordered_ofText document.text).offset_mono hfirst hlast hle)

/-- Every edit of a fix that converts is inside the document. -/
theorem fixEdits_inside {document : Document} {reported : List ReportEdit} : ∀ {edits : List Edit},
    fixEdits (LineIndex.ofText document.text) reported = .ok edits → List.Forall₂ (Inside document) reported edits := by
  induction reported with
  | nil => intro edits h; cases h; exact .nil
  | cons e rest ih =>
    intro edits h
    unfold fixEdits at h
    rcases ho : offsets (LineIndex.ofText document.text) e.start e.stop with fault | ⟨first, last⟩
    · simp [ho, bind, Except.bind] at h
    rcases hr : fixEdits (LineIndex.ofText document.text) rest with fault | others
    · simp [ho, hr, bind, Except.bind] at h
    simp only [ho, hr, bind, Except.bind, pure, Except.pure, Except.ok.injEq] at h
    subst h
    exact .cons (inside_of_offsets ho) (ih hr)

/-! ## Messages -/

section Messages

variable {settings : Settings} {path : String} {document : Document} {m : Message}

theorem convertIn_finding {d : Diagnostic} (h : (convertIn settings path document m).diagnostic = some d) :
    d.path = some path ∧ 0 ≤ d.start ∧ 0 ≤ d.length ∧ d.start + d.length ≤ document.size := by
  unfold convertIn at h
  rcases ho : offsets (LineIndex.ofText document.text) m.start m.stop with fault | ⟨first, last⟩
  · simp only [ho, reduceCtorEq] at h
  · simp only [ho, Option.some.injEq] at h
    subst h
    obtain ⟨hstart, hstop⟩ := offsets_le ho
    refine ⟨rfl, ?_, ?_, ?_⟩ <;> simp only <;> omega

theorem convertIn_candidate {c : Candidate} (h : (convertIn settings path document m).candidate = some c) :
    ∃ fix, m.fix = some fix ∧ List.Forall₂ (Inside document) fix.edits c.edits := by
  unfold convertIn at h
  rcases ho : offsets (LineIndex.ofText document.text) m.start m.stop with fault | ⟨first, last⟩
  · simp only [ho, reduceCtorEq] at h
  · simp only [ho, candidate] at h
    rcases hf : m.fix with _ | fix
    · simp only [hf, reduceCtorEq] at h
    · simp only [hf] at h
      split at h
      · cases h
      · rcases he : fixEdits (LineIndex.ofText document.text) fix.edits with fault | edits
        · simp only [he, reduceCtorEq] at h
        · simp only [he, Option.some.injEq] at h
          subst h
          exact ⟨fix, rfl, fixEdits_inside he⟩

end Messages

/-! ## Reports -/

section Accounts

variable {settings : Settings} {messages : List Message} {conversion : Conversion} {cs : List Converted}

theorem mem_right_of_forall₂ {α β : Type} {R : α → β → Prop} {as : List α} {bs : List β}
    (h : List.Forall₂ R as bs) {b : β} (hb : b ∈ bs) : ∃ a ∈ as, R a b := by
  induction h with
  | nil => cases hb
  | cons hr _ ih =>
    rcases List.mem_cons.1 hb with rfl | hb
    · exact ⟨_, List.mem_cons_self .., hr⟩
    · obtain ⟨a, ha, hab⟩ := ih hb
      exact ⟨a, List.mem_cons_of_mem _ ha, hab⟩

/-- A finding with a file lies within the document of this file. -/
theorem Account.finding_inside (h : Account settings [] messages conversion cs) {d : Diagnostic}
    (hd : d ∈ conversion.diagnostics) {path : String} (hp : d.path = some path) :
    ∃ document, conversion.workspace.loader.kept? path = some document ∧
      0 ≤ d.start ∧ 0 ≤ d.length ∧ d.start + d.length ≤ document.size := by
  rw [h.diagnostics] at hd
  obtain ⟨c, hc, hdc⟩ := List.mem_flatMap.1 hd
  obtain ⟨m, -, hreading⟩ := mem_right_of_forall₂ h.each hc
  have hfinding := Option.mem_toList.1 hdc
  cases hreading with
  | homeless journal =>
    cases hfinding
    cases hp
  | inFile path' document hkept =>
    obtain ⟨hpath, hbounds⟩ := convertIn_finding hfinding
    cases hpath.symm.trans hp
    exact ⟨document, hkept, hbounds⟩

/-- A fix on offer is one that a message reports, with every edit inside the document of its file. -/
theorem Account.offer_inside (h : Account settings [] messages conversion cs) {d : Diagnostic} {c : Candidate}
    (hc : c ∈ conversion.fixes.of d) :
    ∃ path document, d.path = some path ∧ conversion.workspace.loader.kept? path = some document ∧
      ∃ m ∈ messages, ∃ fix, m.fix = some fix ∧ List.Forall₂ (Inside document) fix.edits c.edits := by
  rw [h.fixes, mem_of_foldl] at hc
  obtain ⟨converted, hmem, hfinding, hoffer⟩ := hc.resolve_left List.not_mem_nil
  obtain ⟨m, hm, hreading⟩ := mem_right_of_forall₂ h.each hmem
  cases hreading with
  | homeless journal => cases hoffer
  | inFile path document hkept =>
    exact ⟨path, document, (convertIn_finding hfinding).1, hkept, m, hm, convertIn_candidate hoffer⟩

end Accounts

/-! ## Analyses and runs -/

namespace Backend

variable (backend : Backend) (launcher : Launcher) (root : FilePath) (paths : List String) (ws : Workspace)

/-- The messages of the report that an analysis reads. -/
def messages : List Message :=
  match (launcher.launch ws.tree (backend.settings.commandLine paths) root).1 with
  | .error _ => []
  | .ok finished => (parse finished.stdout).toOption.getD []

/-- A report that is taken in has been read and converted from beginning to end. -/
theorem receive_account {command : List String} {finished : Finished} {ds : List Diagnostic}
    (h : (backend.receive root ws command finished).findings = .ok ds) :
    ∃ messages conversion cs, parse finished.stdout = .ok messages ∧
      Account backend.settings [] messages conversion cs ∧ conversion.diagnostics = ds ∧
      conversion.fixes = (backend.receive root ws command finished).backend.fixes ∧
      conversion.workspace = (backend.receive root ws command finished).workspace := by
  unfold receive at h ⊢
  split at h
  · cases h
  · rename_i hcode
    simp only [if_neg hcode] at h ⊢
    rcases hp : parse finished.stdout with (fault | digits) | messages
    · simp only [hp, reduceCtorEq] at h
    · simp only [hp, reduceCtorEq] at h
    · simp only [hp] at h ⊢
      rcases hend : (convertAll backend.settings root ws [] messages).ending with fault | _
      · simp only [hend, reduceCtorEq] at h
      · simp only [hend, Except.ok.injEq] at h ⊢
        obtain ⟨cs, hcs⟩ := exists_account messages _ _ hend
        exact ⟨messages, _, cs, rfl, hcs, h, rfl, rfl⟩

/-- The findings and fixes of an analysis that comes through are those that its report converts to. -/
theorem analyze_account {ds : List Diagnostic} (h : (backend.analyze launcher root paths ws).findings = .ok ds) :
    ∃ conversion cs, Account backend.settings [] (backend.messages launcher root paths ws) conversion cs ∧
      conversion.diagnostics = ds ∧ conversion.fixes = (backend.analyze launcher root paths ws).backend.fixes ∧
      conversion.workspace = (backend.analyze launcher root paths ws).workspace := by
  unfold analyze at h ⊢
  unfold messages
  by_cases havail : launcher.available ws.tree ((backend.settings.commandLine paths).headD "") = true
  · simp only [havail, Bool.not_true, Bool.false_eq_true, if_false] at h ⊢
    rcases hl : launcher.launch ws.tree (backend.settings.commandLine paths) root with ⟨failure | finished, tree⟩
    · simp only [hl, reduceCtorEq] at h
    · simp only [hl] at h ⊢
      obtain ⟨messages, conversion, cs, hparse, hrest⟩ := backend.receive_account root _ h
      rw [hparse]
      exact ⟨conversion, cs, hrest⟩
  · simp only [Bool.not_eq_true] at havail
    simp only [havail, Bool.not_false, if_true, reduceCtorEq] at h

end Backend

/-- A finding of a file names it. -/
theorem path_of_mem_findingsOf {f : String} {ds : List Diagnostic} {d : Diagnostic} (h : d ∈ findingsOf f ds) :
    d.path = some f :=
  (Option.filter_eq_some_iff.1 (of_decide_eq_true (List.mem_filter.1 h).2)).1

/-- An analysis stays within the documents that it leaves in the loader, whatever its report says. If
every reported edit ends at its start or after it, and a run takes edits as they are, each merge that the
run can come to goes through. -/
theorem analysis_inside (backend : Backend) (launcher : Launcher) (root : FilePath) (paths : List String)
    (ws : Workspace) {r : Backend.Response} (hr : backend.analyze launcher root paths ws = r) {ds : List Diagnostic}
    (hds : r.findings = .ok ds) :
    (∀ d ∈ ds, ∀ path, d.path = some path → ∃ document, r.workspace.loader.kept? path = some document ∧
      0 ≤ d.start ∧ 0 ≤ d.length ∧ d.start + d.length ≤ document.size) ∧
    (∀ d, ∀ c ∈ r.backend.fixes.of d, ∃ path document, d.path = some path ∧
      r.workspace.loader.kept? path = some document ∧ ∃ m ∈ backend.messages launcher root paths ws,
        ∃ fix, m.fix = some fix ∧ List.Forall₂ (Inside document) fix.edits c.edits) ∧
    ((∀ m ∈ backend.messages launcher root paths ws, ∀ fix ∈ m.fix, ∀ e ∈ fix.edits, e.start ≤ e.stop) →
      ∀ (options : RunOptions) (token : Token) (writer : Writer) (schedule : List Run.Turn), options.rules.rework = none →
        ∀ f document asked,
          (Run.complete options token writer schedule r.toAnalysis).workspace.loader.kept? f = some document →
          ∃ merged, (Selection.select r.backend.oracle options.rules token asked document
            (findingsOf f ds)).patches.apply document = .ok merged) := by
  subst hr
  obtain ⟨conversion, cs, haccount, hfindings, hfixes, hworkspace⟩ := backend.analyze_account launcher root paths ws hds
  rw [← hfixes, ← hworkspace]
  refine ⟨fun d hd path hp => haccount.finding_inside (hfindings ▸ hd) hp, fun d c hc => haccount.offer_inside hc, ?_⟩
  intro hordered options token writer schedule hrework f document asked hkept
  rw [PatchSet.apply_ok_iff]
  intro patch hpatch
  obtain ⟨hfinding, candidates, hanswer, c, hc, hedit⟩ := Selection.select_offered hrework asked _ patch hpatch
  cases hanswer
  rw [← hfixes] at hc
  obtain ⟨path, document', hpath, hkept', m, hm, fix, hfix, hinside⟩ := haccount.offer_inside hc
  -- the run merges into the document that the analysis took its offsets from
  cases hpath.symm.trans (path_of_mem_findingsOf hfinding)
  have hrun : (Run.complete options token writer schedule
      (backend.analyze launcher root paths ws).toAnalysis).workspace.loader.Extends conversion.workspace.loader := by
    unfold Run.complete Backend.Response.toAnalysis
    rw [hds, hworkspace]
    exact Run.kept_overFindings _ _ _ _
  cases (hrun _ _ hkept').symm.trans hkept
  obtain ⟨e, he, hplaces⟩ := mem_right_of_forall₂ hinside hedit
  exact hplaces.fits.2 (hplaces.ordered (hordered m hm fix hfix e he))

/-! ### A report on one file -/

/-- A report with one message, whose fix takes out the first character of the file. -/
def sampleReport : String :=
  "[\x7b\"filename\":\"a\",\"location\":\x7b\"row\":1,\"column\":1\x7d," ++
  "\"end_location\":\x7b\"row\":1,\"column\":3\x7d,\"fix\":\x7b\"edits\":[\x7b" ++
  "\"location\":\x7b\"row\":1,\"column\":1\x7d,\"end_location\":\x7b\"row\":1,\"column\":2\x7d\x7d]\x7d\x7d]"

/-- The finding of this report. -/
def sampleFinding : Diagnostic :=
  ⟨"syntax-error", some "a", 0, 2, ""⟩

/-- The analysis that reads this report. -/
def sampleResponse : Backend.Response :=
  (Backend.new Settings.default).analyze (Launcher.given ⟨sampleReport, 0, ""⟩) (FilePath.ofString "/") []
    Run.sampleWorkspace

/-- The run over this analysis. -/
def sampleRun : RunResult AnalysisFault :=
  Run.complete ⟨Rules.none, false, false, 1⟩ Token.never (Run.defaultWriter Run.sampleWorkspace.loader) []
    sampleResponse.toAnalysis

theorem sampleResponse_facts :
    sampleResponse.findings = .ok [sampleFinding] ∧
    ⟨"syntax-error", "", [.delete 0 1], some "syntax-error"⟩ ∈ sampleResponse.backend.fixes.of sampleFinding ∧
    (∀ m ∈ (Backend.new Settings.default).messages (Launcher.given ⟨sampleReport, 0, ""⟩) (FilePath.ofString "/") []
      Run.sampleWorkspace, ∀ fix ∈ m.fix, ∀ e ∈ fix.edits, e.start ≤ e.stop) ∧
    sampleRun.workspace.loader.kept? "a" = some ⟨"a", "12"⟩ := by
  decide +kernel

theorem sample_analysis_inside :
    (∃ document, sampleResponse.workspace.loader.kept? "a" = some document ∧ 0 ≤ sampleFinding.start ∧
      0 ≤ sampleFinding.length ∧ sampleFinding.start + sampleFinding.length ≤ document.size) ∧
    (∃ path document, some "a" = some path ∧ sampleResponse.workspace.loader.kept? path = some document ∧
      ∃ fix : ReportFix, List.Forall₂ (Inside document) fix.edits [.delete 0 1]) ∧
    ∃ merged, (Selection.select sampleResponse.backend.oracle Rules.none Token.never 0 ⟨"a", "12"⟩
      (findingsOf "a" [sampleFinding])).patches.apply ⟨"a", "12"⟩ = .ok merged := by
  obtain ⟨hds, hoffer, hordered, hkept⟩ := sampleResponse_facts
  unfold sampleRun at hkept
  obtain ⟨hfindings, hoffers, hmerges⟩ := analysis_inside (Backend.new Settings.default)
    (Launcher.given ⟨sampleReport, 0, ""⟩) (FilePath.ofString "/") [] Run.sampleWorkspace (Eq.refl sampleResponse) hds
  refine ⟨hfindings sampleFinding (List.mem_singleton_self _) "a" rfl, ?_, ?_⟩
  · obtain ⟨path, document, hpath, hkept, -, -, fix, -, hinside⟩ := hoffers sampleFinding _ hoffer
    exact ⟨path, document, hpath, hkept, fix, hinside⟩
  · exact hmerges hordered ⟨Rules.none, false, false, 1⟩ Token.never
      (Run.defaultWriter Run.sampleWorkspace.loader) [] rfl "a" ⟨"a", "12"⟩ 0 hkept

end Amend.Report
