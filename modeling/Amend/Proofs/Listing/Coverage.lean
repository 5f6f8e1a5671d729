/-
Listings are exact and cover every fix. Under each key a file's counter has the number of pairs of a
finding of the file and a fix on offer for it. A run over the same findings makes no more fixes of a
name for a code than the counter has, whatever its rules, its token, its workers and its writer: each
fix that it reports is one on offer for the finding it reports, and each finding is turned to once.
-/
import Amend.Proofs.Listing
import Amend.Proofs.Run.Truth
import Amend.Proofs.Run.Workers
import Amend.Proofs.Selection.Judge
import Mathlib.Data.List.Flatten

namespace Amend.Listing

/-- Does the event report a finding of this code as fixed by a fix of this name? -/
def reportsFix (name code : String) (e : Event) : Bool :=
  e.outcome = .fixed ∧ e.detail = name ∧ e.diagnostic.map (·.code) = some code

/-- Is it a fix of this name for a finding of this code? -/
def isFor (name code : String) (offer : Diagnostic × Candidate) : Bool :=
  offer.2.name = name ∧ offer.1.code = code

/-! ## Fixes of a selection -/

section Selections

open Selection

variable {oracle : Oracle} {rules : Rules} {token : Token} {document : Document} (name code : String)

theorem countP_of_no_fix {events : List Event} (h : ∀ e ∈ events, e.outcome ≠ .fixed) :
    events.countP (reportsFix name code) = 0 :=
  List.countP_eq_zero.2 fun e he => by simp [reportsFix, h e he]

/-- Of what is said on a finding only the report that it is fixed counts. -/
theorem countP_report {d : Diagnostic} {journal : Journal} (hq : Quiet document d journal) (w : Walk)
    (patches : List Patch) (outcome : Outcome) (detail : String) :
    (w.after patches (journal ++ [event document d outcome detail])).journal.events.countP (reportsFix name code) =
      (if outcome = .fixed ∧ detail = name ∧ d.code = code then 1 else 0) +
        w.journal.events.countP (reportsFix name code) := by
  have hquiet : journal.events.countP (reportsFix name code) = 0 :=
    countP_of_no_fix name code fun e he => by rw [(hq.events e he).2.2]; decide
  simp only [Walk.after, event, Journal.events_append, Journal.events_cons_outcome, Journal.events_nil,
    List.countP_append, hquiet, List.countP_singleton]
  simp [reportsFix]

theorem offers_cons (oracle : Oracle) (document : Document) (d : Diagnostic) (rest : List Diagnostic) :
    offers oracle document (d :: rest) = (oracle.offered document d).map (d, ·) ++ offers oracle document rest :=
  List.flatMap_cons

/-- A walk reports no more fixes than are on offer for its findings. -/
theorem walk_fixes_le (ds : List Diagnostic) : ∀ (claimed : List Int) (asked : Nat),
    (walk oracle rules token document claimed asked ds).journal.events.countP (reportsFix name code) ≤
      (offers oracle document ds).countP (isFor name code) := by
  induction ds with
  | nil => intro claimed asked; exact Nat.zero_le _
  | cons d rest ih =>
    intro claimed asked
    have hsaid := quiet_said oracle rules document d
    have hturn := walk_turn oracle rules token document claimed asked d rest
    generalize walk oracle rules token document claimed asked (d :: rest) = w at hturn ⊢
    rw [offers_cons, List.countP_append]
    cases hturn with
    | stopped hset => exact Nat.zero_le _
    | broken failure hset hd hj =>
      refine (countP_of_no_fix name code fun e he => ?_).trans_le (Nat.zero_le _)
      rw [(hsaid.events e he).2.2]
      decide
    | duplicate hset hd =>
      refine (countP_report name code (quiet_nil d) _ [] .skippedDuplicate _).trans_le ?_
      have hrest := ih claimed asked
      rw [if_neg (by simp)]
      omega
    | unfixed detail hset hd hj =>
      have hrest := ih claimed (asked + 1)
      rw [countP_report name code hsaid, if_neg (by simp)]
      omega
    | fixed chosen edits hset hd hj =>
      have hrest := ih (d.start :: claimed) (asked + 1)
      rw [countP_report name code hsaid]
      by_cases hfix : chosen = name ∧ d.code = code
      -- the fix that is reported is on offer for this very finding
      · obtain ⟨rfl, rfl⟩ := hfix
        obtain ⟨candidates, hanswer, c, hc, hname⟩ := judge_named hj
        have hoffer : (d, c) ∈ (oracle.offered document d).map (d, ·) := by
          simpa [Oracle.offered, hanswer, Except.toOption] using hc
        have hone : 0 < ((oracle.offered document d).map (d, ·)).countP (isFor chosen d.code) :=
          List.countP_pos_iff.2 ⟨(d, c), hoffer, by simp [isFor, hname]⟩
        rw [if_pos ⟨rfl, rfl, rfl⟩]
        omega
      · rw [if_neg fun h => hfix h.2]
        omega

theorem select_fixes_le (asked : Nat) (ds : List Diagnostic) :
    (select oracle rules token asked document ds).journal.events.countP (reportsFix name code) ≤
      (offers oracle document ds).countP (isFor name code) := by
  unfold select
  split
  · exact Nat.zero_le _
  · rename_i kept hk
    split
    · exact Nat.zero_le _
    · have hsub : (offers oracle document kept).Sublist (offers oracle document ds) := by
        rw [Rules.kept_ok hk]
        exact List.filter_sublist.flatMap _
      exact (walk_fixes_le name code kept [] asked).trans hsub.countP_le

end Selections

/-! ## Fixes of a run -/

section Runs

open Run

variable {setup : Setup} {w : Work} {events : List Event} {calls : List WriterCall} {result : Except Failure FileResult}

/-- Whatever becomes of a file, its fixes are those that its selection reported. -/
theorem course_fixes_le (h : Course setup w events calls result) (name code : String) :
    events.countP (reportsFix name code) = 0 ∨ ∃ document, w.loaded = .ok document ∧
      events.countP (reportsFix name code) ≤ (offers setup.oracle document w.findings).countP (isFor name code) := by
  have hselection : ∀ document,
      (w.selection setup document).journal.events.countP (reportsFix name code) ≤
        (offers setup.oracle document w.findings).countP (isFor name code) :=
    fun document => select_fixes_le name code w.asked w.findings
  have hoverlap : ∀ r, (overlapEvents w.path r).countP (reportsFix name code) = 0 := fun r =>
    countP_of_no_fix name code fun e he => by rw [outcome_of_mem_overlapEvents e he]; decide
  have herror : ∀ detail, [errorEvent w.path detail].countP (reportsFix name code) = 0 := fun detail =>
    countP_of_no_fix name code fun e he => by simp [List.mem_singleton.1 he, errorEvent]
  cases h with
  | unloaded fault detail hl => exact .inl (herror detail)
  | interrupted document failure hl => exact .inr ⟨document, hl, hselection document⟩
  | idle document hl => exact .inr ⟨document, hl, hselection document⟩
  | broken document failure hl | misfit document _ hl =>
    refine .inr ⟨document, hl, ?_⟩
    rw [List.countP_append, herror]
    exact hselection document
  | unchanged document r hm | dry document r hm | written document r hm | stopped document r failure hm =>
    refine .inr ⟨document, hm.loaded, ?_⟩
    rw [List.countP_append, hoverlap]
    exact hselection document
  | unwritten document r failure diff hm =>
    refine .inr ⟨document, hm.loaded, ?_⟩
    rw [List.countP_append, List.countP_append, hoverlap, herror]
    exact hselection document

/-- How many of the events report a finding of a file and of a code as fixed by a fix of a name. -/
def fixesOf (path name code : String) (events : List Event) : Nat :=
  (events.filter (·.path = some path)).countP (reportsFix name code)

theorem fixesOf_overFindings_le (setup : Setup) (schedule : List Run.Turn) (ws : Workspace) (ds : List Diagnostic)
    (path name code : String) :
    fixesOf path name code (overFindings setup schedule ws ds).2.1.events = 0 ∨
    ∃ document, (overFindings setup schedule ws ds).2.2.loader.kept? path = some document ∧
      fixesOf path name code (overFindings setup schedule ws ds).2.1.events ≤
        (offers setup.oracle document (findingsOf path ds)).countP (isFor name code) := by
  obtain ⟨works, hx⟩ := explains_filesRun setup schedule ws ds
  have hmissing : (missingEvents ds).filter (·.path = some path) = [] :=
    List.filter_eq_nil_iff.2 fun e he => by simp [path_of_mem_missingEvents ds e he]
  unfold fixesOf
  rw [events_overFindings, List.filter_append, hmissing, List.nil_append, workspace_overFindings]
  by_cases hw : ∃ w ∈ works, w.path = path
  · obtain ⟨w, hw, rfl⟩ := hw
    have hfindings : w.findings = findingsOf w.path ds := ((Grouping.mem_groups_iff ds _ _).1 (hx.group w hw)).2
    rw [hx.events_work hw, ← hfindings]
    refine (course_fixes_le (course setup w) name code).imp_right ?_
    rintro ⟨document, hl, hle⟩
    exact ⟨document, (hx.kept w hw document).1 hl, hle⟩
  · left
    rw [← Journal.events_about, hx.about_none fun w hm hp => hw ⟨w, hm, hp⟩]
    rfl

end Runs

/-! ## Counters -/

/-- What a listing has under a key for a file. -/
def lookup (counts : Table String FixCounts) (path k : String) : Option Int :=
  (counts.get? path).bind (·.get? k)

theorem mem_pathsOf {ds : List Diagnostic} {path : String} : path ∈ pathsOf ds ↔ findingsOf path ds ≠ [] := by
  rw [← Grouping.mem_keys_groups_iff, Grouping.keys_groups]
  rfl

section Counters

variable {oracle : Oracle} {ws : Workspace} {ds : List Diagnostic} {path : String} {document : Document}

theorem get?_listed (hl : (ws.load path).1 = .ok document) : (listed oracle ws ds).get? path =
    if offers oracle document (findingsOf path ds) = [] then none
    else some (counter ((offers oracle document (findingsOf path ds)).map keyOf)) := by
  unfold listed
  rw [Table.get?_filterMap_keys, ← row?_of_ok hl]
  split
  · rfl
  · rename_i hp
    rw [mem_pathsOf, not_not] at hp
    simp [row?_of_ok hl, hp, offers]

theorem get?_listed_error {fault : LoadFault} (hl : (ws.load path).1 = .error fault) :
    (listed oracle ws ds).get? path = none := by
  unfold listed
  rw [Table.get?_filterMap_keys, row?_of_error hl, ite_self]

/-- Under a key stands the number of fixes on offer that have it, unless there is none. -/
theorem lookup_listed (hl : (ws.load path).1 = .ok document) (k : String) :
    lookup (listed oracle ws ds) path k =
      if (offers oracle document (findingsOf path ds)).countP (keyOf · = k) = 0 then none
      else some ((offers oracle document (findingsOf path ds)).countP (keyOf · = k) : Int) := by
  have hcount : ((offers oracle document (findingsOf path ds)).map keyOf).count k =
      (offers oracle document (findingsOf path ds)).countP (keyOf · = k) := by
    rw [List.count, List.countP_map]
    rfl
  unfold lookup
  rw [get?_listed hl]
  by_cases hnone : offers oracle document (findingsOf path ds) = []
  · simp [hnone]
  · rw [if_neg hnone, Option.bind_some, get?_counter, hcount, ← hcount]
    by_cases hk : k ∈ (offers oracle document (findingsOf path ds)).map keyOf
    · rw [if_pos hk, if_neg (Nat.ne_of_gt (List.count_pos_iff.2 hk))]
    · rw [if_neg hk, if_pos (List.count_eq_zero_of_not_mem hk)]

theorem countP_isFor_le (name code : String) (pairs : List (Diagnostic × Candidate)) :
    pairs.countP (isFor name code) ≤ pairs.countP (keyOf · = key name code) := by
  refine List.countP_mono_left fun pair _ h => ?_
  obtain ⟨rfl, rfl⟩ : pair.2.name = name ∧ pair.1.code = code := by simpa [isFor] using h
  simp [keyOf]

theorem offers_congr {document' : Document} {fs : List Diagnostic}
    (h : ∀ d ∈ fs, oracle.answer d document' = oracle.answer d document) :
    offers oracle document' fs = offers oracle document fs :=
  List.flatMap_congr fun d hd => by simp only [Oracle.offered, h d hd]

end Counters

/-! ## Listings and runs -/

/-- Of no fix of the file, by name and code, more are reported than were counted. -/
def Covers (counts : Table String FixCounts) (path : String) (events : List Event) : Prop :=
  ∀ name code, (fixesOf path name code events : Int) ≤ (lookup counts path (key name code)).getD 0

section Runs

open Run

variable {setup : Setup} {schedule : List Run.Turn} {ws : Workspace} {ds : List Diagnostic} {path : String}
  {document : Document}

theorem lookup_nonneg (k : String) : 0 ≤ (lookup (listed setup.oracle ws ds) path k).getD 0 := by
  rcases hl : (ws.load path).1 with fault | document
  · unfold lookup
    rw [get?_listed_error hl]
    exact le_rfl
  · rw [lookup_listed hl]
    split
    · exact le_rfl
    · exact Int.natCast_nonneg _

/-- A listing covers events that report, of each fix, none or no more than are on offer for the document
that was listed. -/
theorem covers_of_le {events : List Event} (h : ∀ name code, fixesOf path name code events = 0 ∨
    ∃ document, (ws.load path).1 = .ok document ∧ fixesOf path name code events ≤
      (offers setup.oracle document (findingsOf path ds)).countP (isFor name code)) :
    Covers (listed setup.oracle ws ds) path events := by
  intro name code
  rcases h name code with hzero | ⟨document, hl, hle⟩
  · rw [hzero]
    exact lookup_nonneg _
  · have hkey := countP_isFor_le name code (offers setup.oracle document (findingsOf path ds))
    rw [lookup_listed hl]
    split
    · simp only [Option.getD_none]
      omega
    · simp only [Option.getD_some]
      omega

/-- A listing covers every run in which the oracle answers for the file as it does for the document
that was listed. -/
theorem covers_of_answers (hl : (ws.load path).1 = .ok document) {ws' : Workspace}
    (hsame : ∀ document', (overFindings setup schedule ws' ds).2.2.loader.kept? path = some document' →
      ∀ d ∈ findingsOf path ds, setup.oracle.answer d document' = setup.oracle.answer d document) :
    Covers (listed setup.oracle ws ds) path (overFindings setup schedule ws' ds).2.1.events := by
  refine covers_of_le fun name code => (fixesOf_overFindings_le setup schedule ws' ds path name code).imp_right ?_
  rintro ⟨document', hkept, hle⟩
  rw [offers_congr (hsame document' hkept)] at hle
  exact ⟨document, hl, hle⟩

/-- If writing to the other files does not change its text, a run has the document that a listing has. -/
theorem load_of_steady (hs : Steady setup.writer ws (pathsOf ds))
    (hk : (overFindings setup schedule ws ds).2.2.loader.kept? path = some document) :
    (ws.load path).1 = .ok document := by
  obtain ⟨works, hx⟩ := explains_filesRun setup schedule ws ds
  have hkeys : pathsOf ds = (Grouping.ofDiagnostics ds).groups.keys := (Grouping.keys_groups ds).symm
  rw [hkeys] at hs
  rw [workspace_overFindings] at hk
  show (ws.loader.load ws.tree path).1 = .ok document
  by_cases hw : ∃ w ∈ works, w.path = path
  · obtain ⟨w, hw, rfl⟩ := hw
    rw [← (hx.steady hs hw).1, hx.kept w hw]
    exact hk
  · rw [hx.frame path fun w hm hp => hw ⟨w, hm, hp⟩] at hk
    exact (Loader.load_ok_iff ..).2 (ws.loader.load_extends ws.tree path path document hk)

/-- If writing to one of the files does not change the text of another, a listing covers a run over the
same files, also for those that cannot be read. -/
theorem covers_of_steady (hs : Steady setup.writer ws (pathsOf ds)) :
    Covers (listed setup.oracle ws ds) path (overFindings setup schedule ws ds).2.1.events := by
  refine covers_of_le fun name code => (fixesOf_overFindings_le setup schedule ws ds path name code).imp_right ?_
  rintro ⟨document, hkept, hle⟩
  exact ⟨document, load_of_steady hs hkept, hle⟩

end Runs

/-- Listings are exact and cover every fix. If each file can be read or is found unreadable, and the
oracle answers or declines, the listing has the files with fixes on offer in the order in which they
are first named, and under each key how many fixes on offer have it. It covers every run over these
findings with this oracle in which writing to one of the files does not change the text of another. For
a file that was listed it also covers every run, over any files, in which the oracle answers as it does
for the listed document; an oracle that goes by the finding alone always does. -/
theorem listing_covers_fixes {ε : Type} (oracle : Oracle) (ws : Workspace) (ds : List Diagnostic)
    (hc : ∀ path ∈ pathsOf ds, Contained oracle ws path (findingsOf path ds)) :
    ∃ counts, (ofAnalysis Token.never (Analysis.given (ε := ε) ws oracle ds)).counts = .ok counts ∧
      counts.keys.Sublist (pathsOf ds) ∧
      (∀ path, path ∈ counts.keys ↔ ∃ document, (ws.load path).1 = .ok document ∧
        offers oracle document (findingsOf path ds) ≠ []) ∧
      (∀ path document, (ws.load path).1 = .ok document → ∀ k, lookup counts path k =
        if (offers oracle document (findingsOf path ds)).countP (keyOf · = k) = 0 then none
        else some ((offers oracle document (findingsOf path ds)).countP (keyOf · = k) : Int)) ∧
      ∀ (options : RunOptions) (token : Token) (writer : Writer) (schedule : List Run.Turn) (path : String),
        (Run.Steady writer ws (pathsOf ds) →
          Covers counts path (Run.overFindings ⟨oracle, options, token, writer⟩ schedule ws ds).2.1.events) ∧
        ∀ document, (ws.load path).1 = .ok document → ∀ ws' : Workspace,
          (∀ document', (Run.overFindings ⟨oracle, options, token, writer⟩ schedule ws' ds).2.2.loader.kept? path =
            some document' → ∀ d ∈ findingsOf path ds, oracle.answer d document' = oracle.answer d document) →
          Covers counts path (Run.overFindings ⟨oracle, options, token, writer⟩ schedule ws' ds).2.1.events := by
  refine ⟨listed oracle ws ds, (ofAnalysis_ok_iff ..).2 ⟨hc, rfl⟩, ?_, fun path => ?_,
    fun path document hl => lookup_listed hl, fun options token writer schedule path =>
      ⟨fun hs => covers_of_steady hs, fun document hl ws' hsame => covers_of_answers hl hsame⟩⟩
  · unfold listed
    rw [Table.keys_filterMap_keys]
    exact List.filter_sublist
  · rw [Table.mem_keys_iff]
    rcases hl : (ws.load path).1 with fault | document
    · simp [get?_listed_error hl]
    · rw [get?_listed hl]
      by_cases hnone : offers oracle document (findingsOf path ds) = [] <;> simp [hnone]

/-- Whether the run over the sample is stopped or not, it makes no more than the one fix that was
counted. -/
theorem sample_listing_covers_fixes :
    ∃ counts, (ofAnalysis Token.never (Analysis.given (ε := Empty) Run.sampleWorkspace Run.sampleSetup.oracle
        Run.sampleFindings)).counts = .ok counts ∧
      lookup counts "a" (key "fix" "E1") = some 1 ∧
      ∀ token, fixesOf "a" "fix" "E1" (Run.overFindings ⟨Run.sampleSetup.oracle, Run.sampleSetup.options, token,
        Run.sampleSetup.writer⟩ [] Run.sampleWorkspace Run.sampleFindings).2.1.events ≤ 1 := by
  have hanswers : ∀ document d, Run.sampleSetup.oracle.Answers document d := by
    rintro document d failure ⟨⟩
  have hcontained : ∀ path ∈ pathsOf Run.sampleFindings,
      Contained Run.sampleSetup.oracle Run.sampleWorkspace path (findingsOf path Run.sampleFindings) := by
    intro path hpath
    have hnames : path ∈ ["a", "b"] := hpath
    rcases List.mem_pair.1 hnames with rfl | rfl
    · have hl : (Run.sampleWorkspace.load "a").1 = .ok ⟨"a", "12"⟩ := rfl
      exact (contained_of_ok hl).2 fun d _ => hanswers _ d
    · have hl : (Run.sampleWorkspace.load "b").1 = .ok ⟨"b", "34"⟩ := rfl
      exact (contained_of_ok hl).2 fun d _ => hanswers _ d
  have hsteady : Run.Steady Run.sampleSetup.writer Run.sampleWorkspace (pathsOf Run.sampleFindings) :=
    Run.sample_apart.fetch
  obtain ⟨counts, hcounts, -, -, hlookup, hruns⟩ := listing_covers_fixes (ε := Empty) Run.sampleSetup.oracle
    Run.sampleWorkspace Run.sampleFindings hcontained
  have hone : lookup counts "a" (key "fix" "E1") = some 1 := by
    rw [hlookup "a" ⟨"a", "12"⟩ rfl]
    decide
  refine ⟨counts, hcounts, hone, fun token => ?_⟩
  have hbound := (hruns Run.sampleSetup.options token Run.sampleSetup.writer [] "a").1 hsteady "fix" "E1"
  rw [hone] at hbound
  exact Int.ofNat_le.1 hbound

/-! ### A file with two paths -/

/-- A finding under each of two paths of one file. -/
def twoPathsFindings : List Diagnostic :=
  [⟨"E1", some "a", 0, 1, ""⟩, ⟨"E2", some "./a", 0, 1, ""⟩]

/-- Every finding has one fix, which is named for the text of the document. -/
def titledOracle : Oracle :=
  ⟨fun d document => .ok [⟨document.text, "", [.replace d.start 1 "x"], none⟩], true⟩

/-- A file that is not there, but of which one path was put in. -/
def unsavedWorkspace : Workspace :=
  ⟨⟨[], []⟩, (Loader.new none "utf-8").preload ⟨"a", "12"⟩⟩

/-- Two runs that a listing does not cover, though the oracle always answers and a file that cannot be read
is not there. The run writes the file under its first path. Under the other path it then finds a text that
was not listed, for which the oracle has another fix; or it finds a file that was not there for the
listing. -/
theorem shared_file_outruns_listing :
    (∃ counts, (ofAnalysis Token.never (Analysis.given (ε := Empty) Run.sampleWorkspace titledOracle
        twoPathsFindings)).counts = .ok counts ∧
      lookup counts "./a" (key "12" "E2") = some 1 ∧ lookup counts "./a" (key "x2" "E2") = none ∧
      fixesOf "./a" "x2" "E2" (Run.overFindings ⟨titledOracle, Run.sampleSetup.options, Token.never,
        Run.sampleSetup.writer⟩ [] Run.sampleWorkspace twoPathsFindings).2.1.events = 1) ∧
    ∃ counts, (ofAnalysis Token.never (Analysis.given (ε := Empty) unsavedWorkspace Run.sampleSetup.oracle
        twoPathsFindings)).counts = .ok counts ∧
      counts.keys = ["a"] ∧
      fixesOf "./a" "fix" "E2" (Run.overFindings Run.sampleSetup [] unsavedWorkspace twoPathsFindings).2.1.events = 1 :=
  ⟨⟨_, rfl, by decide +kernel⟩, _, rfl, by decide +kernel⟩

end Amend.Listing
