/-
Fixes that may not be used leave no trace. A fix without edits, one for display only and, unless they
are asked for, a risky one are never looked into: two reports that differ in such fixes alone convert
to the same findings and the same offers, and whatever is done with these, a run or a listing, is the
same for both. Not even a place outside the document shows if it stands in such a fix.
-/
import Amend.Listing
import Amend.Proofs.Run.Report
import Amend.Report.Analysis
import Mathlib.Data.List.Forall2

namespace Amend.Report

/-- No fix, or one that may not be used. -/
def Barred (settings : Settings) (fix : Option ReportFix) : Prop :=
  ∀ f ∈ fix, f.edits = [] ∨ f.applicability = .displayOnly ∨
    f.applicability = .risky ∧ settings.riskyFixes = false

/-- Messages that differ, if at all, in fixes that may not be used. -/
def Alike (settings : Settings) (m n : Message) : Prop :=
  m = n ∨ Barred settings m.fix ∧ Barred settings n.fix ∧ n = { m with fix := n.fix }

/-- Two ends of the analyzer that differ, if at all, in fixes of their reports that may not be used. -/
structure Twins (settings : Settings) (finished other : Finished) : Prop where
  code : finished.code = other.code
  stderr : finished.stderr = other.stderr
  reports : ∃ ms ns, parse finished.stdout = .ok ms ∧ parse other.stdout = .ok ns ∧
    List.Forall₂ (Alike settings) ms ns

section Conversions

variable {settings : Settings} {m n : Message}

theorem usable_of_barred {f : ReportFix} (h : Barred settings (some f)) : f.usable settings.riskyFixes = false := by
  unfold ReportFix.usable
  rcases h f rfl with hedits | hdisplay | ⟨hrisky, hsettings⟩
  · simp [hedits]
  · simp [hdisplay]
  · simp [hrisky, hsettings]

/-- A fix that may not be used is as good as none, wherever its edits lie. -/
theorem candidate_of_barred (h : Barred settings m.fix) (index : LineIndex) (path : String) :
    candidate settings index path m = ([], none) := by
  unfold candidate
  rcases hf : m.fix with _ | f
  · simp only
  · rw [hf] at h
    simp only [usable_of_barred h, Bool.not_false, if_true]

theorem convertIn_alike (h : Alike settings m n) (path : String) (document : Document) :
    convertIn settings path document m = convertIn settings path document n := by
  rcases h with rfl | ⟨hm, hn, he⟩
  · rfl
  unfold convertIn
  simp only [candidate_of_barred hm, candidate_of_barred hn]
  rw [he]
  rfl

theorem convert_alike (h : Alike settings m n) (root : FilePath) (ws : Workspace) :
    convert settings root ws m = convert settings root ws n := by
  have hname : m.filename = n.filename ∧ homeless m = homeless n := by
    rcases h with rfl | ⟨-, -, he⟩
    · exact ⟨rfl, rfl⟩
    · rw [he]
      exact ⟨rfl, rfl⟩
  unfold convert
  simp only [hname, convertIn_alike h]

theorem convertAll_alike {ms ns : List Message} (h : List.Forall₂ (Alike settings) ms ns) (root : FilePath) :
    ∀ (ws : Workspace) (fixes : FixTable),
      convertAll settings root ws fixes ms = convertAll settings root ws fixes ns := by
  induction h with
  | nil => exact fun _ _ => rfl
  | cons hmn _ ih =>
    intro ws fixes
    unfold convertAll
    simp only [convert_alike hmn, ih]

end Conversions

/-- An analyzer that ends alike is responded to alike. -/
theorem receive_twins (backend : Backend) (root : FilePath) (ws : Workspace) (command : List String)
    {finished other : Finished} (h : Twins backend.settings finished other) :
    backend.receive root ws command finished = backend.receive root ws command other := by
  obtain ⟨ms, ns, hms, hns, hreports⟩ := h.reports
  unfold Backend.receive
  simp only [h.code, h.stderr, hms, hns, convertAll_alike hreports]

/-- Whatever a report says in fixes that may not be used, the findings are the same, every finding is
answered alike, and a run or a listing comes to the same end in every respect: summary, journal with
all that is written, and files. -/
theorem barred_fixes_unseen (backend : Backend) (root : FilePath) (paths : List String) (ws : Workspace)
    (launcher launcher' : Launcher) {finished finished' : Finished} {tree : FileTree}
    (havailable : launcher.available ws.tree = launcher'.available ws.tree)
    (hlaunch : launcher.launch ws.tree (backend.settings.commandLine paths) root = (.ok finished, tree))
    (hlaunch' : launcher'.launch ws.tree (backend.settings.commandLine paths) root = (.ok finished', tree))
    (htwins : Twins backend.settings finished finished') {r r' : Backend.Response}
    (hr : backend.analyze launcher root paths ws = r) (hr' : backend.analyze launcher' root paths ws = r') :
    r.findings = r'.findings ∧
    (∀ d document, r.backend.oracle.answer d document = r'.backend.oracle.answer d document) ∧
    (∀ options token writer schedule, Run.complete options token writer schedule r.toAnalysis =
      Run.complete options token writer schedule r'.toAnalysis) ∧
    ∀ token, Listing.ofAnalysis token r.toAnalysis = Listing.ofAnalysis token r'.toAnalysis := by
  have hsame : r = r' := by
    rw [← hr, ← hr']
    unfold Backend.analyze
    rw [havailable]
    simp only [hlaunch, hlaunch', receive_twins backend root _ _ htwins]
  rw [hsame]
  exact ⟨rfl, fun _ _ => rfl, fun _ _ _ _ => rfl, fun _ => rfl⟩

/-! ### A risky fix that lies outside its file -/

/-- A report with one message, to which a fix can be added. -/
def messageWith (fix : String) : String :=
  "[\x7b\"filename\":\"a\",\"location\":\x7b\"row\":1,\"column\":1\x7d," ++
  "\"end_location\":\x7b\"row\":1,\"column\":2\x7d" ++ fix ++ "\x7d]"

/-- A risky fix in a row that the file does not have. -/
def riskyFix : String :=
  ",\"fix\":\x7b\"applicability\":\"unsafe\",\"edits\":[\x7b\"location\":\x7b\"row\":9,\"column\":1\x7d," ++
  "\"end_location\":\x7b\"row\":9,\"column\":1\x7d\x7d]\x7d"

def plainMessage : Message :=
  ⟨none, some "a", "", ⟨1, 1⟩, ⟨1, 2⟩, none, none⟩

def riskyMessage : Message :=
  { plainMessage with fix := some ⟨.risky, none, [⟨"", ⟨9, 1⟩, ⟨9, 1⟩⟩]⟩ }

theorem parse_messages :
    parse (messageWith "") = .ok [plainMessage] ∧ parse (messageWith riskyFix) = .ok [riskyMessage] := by
  decide +kernel

theorem sample_twins : Twins Settings.default ⟨messageWith riskyFix, 0, ""⟩ ⟨messageWith "", 0, ""⟩ := by
  refine ⟨rfl, rfl, [riskyMessage], [plainMessage], parse_messages.2, parse_messages.1, .cons (.inr ?_) .nil⟩
  refine ⟨?_, ?_, rfl⟩
  · intro f hf
    cases hf
    exact .inr (.inr ⟨rfl, rfl⟩)
  · intro f hf
    cases hf

/-- The analysis that reads a report with this message. -/
def analysisOf (fix : String) : Backend.Response :=
  (Backend.new Settings.default).analyze (Launcher.given ⟨messageWith fix, 0, ""⟩) (FilePath.ofString "/") []
    Run.sampleWorkspace

theorem sample_barred_fixes_unseen :
    riskyMessage ≠ plainMessage ∧ (analysisOf riskyFix).findings = (analysisOf "").findings ∧
    ∀ token, Listing.ofAnalysis token (analysisOf riskyFix).toAnalysis =
      Listing.ofAnalysis token (analysisOf "").toAnalysis := by
  obtain ⟨hfindings, -, -, hlisting⟩ := barred_fixes_unseen (Backend.new Settings.default) (FilePath.ofString "/") []
    Run.sampleWorkspace (Launcher.given ⟨messageWith riskyFix, 0, ""⟩) (Launcher.given ⟨messageWith "", 0, ""⟩)
    rfl rfl rfl sample_twins (Eq.refl (analysisOf riskyFix)) (Eq.refl (analysisOf ""))
  exact ⟨by decide, hfindings, hlisting⟩

end Amend.Report
