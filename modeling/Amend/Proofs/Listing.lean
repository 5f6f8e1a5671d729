/-
What a listing counts, and when it comes through. A listing counts every fix that the oracle offers
for a finding of a file that can be read. It comes through exactly if every load that fails finds
the file unreadable and every query that fails is declined; then it is the listing of an oracle that
offers nothing where this one fails, over the findings whose files can be read.
-/
import Amend.Listing
import Amend.Proofs.Files.Loader
import Amend.Proofs.Group

namespace Amend

namespace Oracle

/-- The fixes that the oracle offers for a finding: none if it fails. -/
def offered (oracle : Oracle) (document : Document) (d : Diagnostic) : List Candidate :=
  (oracle.answer d document).toOption.getD []

/-- The oracle that gives an empty answer where this one fails. -/
def silent (oracle : Oracle) : Oracle where
  answer d document := .ok (oracle.offered document d)
  concurrent := oracle.concurrent

/-- The oracle answers for a finding, or declines to. -/
def Answers (oracle : Oracle) (document : Document) (d : Diagnostic) : Prop :=
  ∀ failure, oracle.answer d document = .error failure → ∃ message, failure = .declined message

end Oracle

namespace Listing

/-! ## Counters -/

/-- One more fix under a key. -/
def FixCounts.count (counts : FixCounts) (k : String) : FixCounts :=
  counts.alter k fun n => n.getD 0 + 1

/-- The counter of keys that come one after the other. -/
def counter (keys : List String) : FixCounts :=
  keys.foldl FixCounts.count []

theorem get?_foldl_count (keys : List String) (k : String) : ∀ counts : FixCounts,
    (keys.foldl FixCounts.count counts).get? k =
      if k ∈ keys then some ((counts.get? k).getD 0 + keys.count k) else counts.get? k := by
  induction keys with
  | nil => intro counts; simp
  | cons key rest ih =>
    intro counts
    rw [List.foldl_cons, ih, FixCounts.count, Table.get?_alter]
    by_cases hk : key = k
    · subst hk
      by_cases hr : key ∈ rest
      · simp only [hr, if_true, Option.getD_some, List.mem_cons_self, List.count_cons_self, Option.some.injEq]
        omega
      · simp [hr, List.count_eq_zero_of_not_mem hr]
    · simp [hk, Ne.symm hk]

theorem get?_counter (keys : List String) (k : String) :
    (counter keys).get? k = if k ∈ keys then some (keys.count k : Int) else none := by
  unfold counter
  rw [get?_foldl_count]
  simp

theorem counter_eq_nil_iff (keys : List String) : counter keys = [] ↔ keys = [] := by
  constructor
  · intro h
    rcases keys with _ | ⟨k, rest⟩
    · rfl
    · have hk := get?_counter (k :: rest) k
      rw [h] at hk
      simp at hk
  · rintro rfl
    rfl

/-! ## Findings of a document -/

/-- The fixes on offer for findings of a document, each with its finding. -/
def offers (oracle : Oracle) (document : Document) (ds : List Diagnostic) : List (Diagnostic × Candidate) :=
  ds.flatMap fun d => (oracle.offered document d).map (d, ·)

/-- The key under which a fix for a finding is counted. -/
def keyOf (offer : Diagnostic × Candidate) : String :=
  key offer.2.name offer.1.code

theorem tally_eq (d : Diagnostic) (candidates : List Candidate) (counts : FixCounts) :
    tally d candidates counts = ((candidates.map (d, ·)).map keyOf).foldl FixCounts.count counts := by
  rw [List.map_map, List.foldl_map]
  rfl

/-- Counting comes through exactly if the oracle answers or declines throughout, and then every fix
on offer has been counted. -/
theorem ofFindings_ok_iff (oracle : Oracle) (document : Document) (ds : List Diagnostic) :
    ∀ counts final : FixCounts, (ofFindings oracle document counts ds).counts = .ok final ↔
      (∀ d ∈ ds, oracle.Answers document d) ∧
        final = ((offers oracle document ds).map keyOf).foldl FixCounts.count counts := by
  induction ds with
  | nil =>
    intro counts final
    simp [ofFindings, offers, eq_comm]
  | cons d rest ih =>
    intro counts final
    have hmore : offers oracle document (d :: rest) =
        (oracle.offered document d).map (d, ·) ++ offers oracle document rest := List.flatMap_cons
    rw [hmore, List.map_append, List.foldl_append, List.forall_mem_cons]
    unfold ofFindings Oracle.Answers Oracle.offered
    rcases ha : oracle.answer d document with failure | candidates
    · cases failure with
      | declined message =>
        simp only [ih, Except.toOption, Option.getD_none, List.map_nil, List.foldl_nil]
        simp [Oracle.Answers]
      | _ => simp
    · simp only [ih, Except.toOption, Option.getD_some, tally_eq]
      simp [Oracle.Answers]

/-! ## Files -/

/-- Whatever fails for a file is left at that: a load finds the file unreadable, a query is declined. -/
structure Contained (oracle : Oracle) (ws : Workspace) (path : String) (ds : List Diagnostic) : Prop where
  load : ∀ fault, (ws.load path).1 = .error fault → fault.isUnreadable = true
  answers : ∀ document, (ws.load path).1 = .ok document → ∀ d ∈ ds, oracle.Answers document d

/-- The counter of a file, unless the file cannot be read or has no fixes. -/
def row? (oracle : Oracle) (ws : Workspace) (path : String) (ds : List Diagnostic) : Option FixCounts :=
  match (ws.load path).1 with
  | .error _ => none
  | .ok document =>
    if offers oracle document ds = [] then none else some (counter ((offers oracle document ds).map keyOf))

section Files

variable {oracle : Oracle} {ws : Workspace} {path : String} {ds : List Diagnostic}

theorem contained_of_error {fault : LoadFault} (hl : (ws.load path).1 = .error fault) :
    Contained oracle ws path ds ↔ fault.isUnreadable = true :=
  ⟨fun h => h.load fault hl, fun h => ⟨by simp [hl, h], by simp [hl]⟩⟩

theorem contained_of_ok {document : Document} (hl : (ws.load path).1 = .ok document) :
    Contained oracle ws path ds ↔ ∀ d ∈ ds, oracle.Answers document d :=
  ⟨fun h => h.answers document hl, fun h => ⟨by simp [hl], by simpa [hl] using h⟩⟩

theorem row?_of_error {fault : LoadFault} (hl : (ws.load path).1 = .error fault) : row? oracle ws path ds = none := by
  simp [row?, hl]

theorem row?_of_ok {document : Document} (hl : (ws.load path).1 = .ok document) : row? oracle ws path ds =
    if offers oracle document ds = [] then none else some (counter ((offers oracle document ds).map keyOf)) := by
  simp [row?, hl]

/-- A file for which all that fails is contained adds its counter, if it has one. -/
theorem ofGroups_contained (asked : Nat) (rest : Table String (List Diagnostic)) (hc : Contained oracle ws path ds) :
    ∃ later, (ofGroups oracle Token.never ws asked ((path, ds) :: rest)).counts =
      (ofGroups oracle Token.never (ws.load path).2 later rest).counts.map
        (((row? oracle ws path ds).map (path, ·)).toList ++ ·) := by
  rcases hl : ws.load path with ⟨fault | document, after⟩
  · have hload : (ws.load path).1 = .error fault := by rw [hl]
    refine ⟨asked, ?_⟩
    rw [ofGroups, if_neg (by simp [Token.never]), hl, row?_of_error hload]
    simp only [(contained_of_error hload).1 hc, if_true, Result.after, Option.map_none, Option.toList_none,
      List.nil_append]
    rcases (ofGroups oracle Token.never after asked rest).counts with _ | _ <;> rfl
  · have hload : (ws.load path).1 = .ok document := by rw [hl]
    have hcounts := (ofFindings_ok_iff oracle document ds [] _).2 ⟨(contained_of_ok hload).1 hc, rfl⟩
    have hempty := counter_eq_nil_iff ((offers oracle document ds).map keyOf)
    unfold counter at hempty
    refine ⟨asked + (Journal.queries (ofFindings oracle document [] ds).journal).length, ?_⟩
    rw [ofGroups, if_neg (by simp [Token.never]), hl, row?_of_ok hload]
    simp only [hcounts, List.isEmpty_iff, hempty, List.map_eq_nil_iff, Result.after]
    by_cases hnone : offers oracle document ds = []
    · rw [if_pos hnone, if_pos hnone]
      rcases (ofGroups oracle Token.never after _ rest).counts with _ | _ <;> rfl
    · rw [if_neg hnone, if_neg hnone]
      rfl

/-- A failure that is not contained ends the listing. -/
theorem ofGroups_broken (asked : Nat) (rest : Table String (List Diagnostic)) (hc : ¬ Contained oracle ws path ds) :
    ∃ fault, (ofGroups oracle Token.never ws asked ((path, ds) :: rest)).counts = .error fault := by
  rcases hl : ws.load path with ⟨fault | document, after⟩
  · have hload : (ws.load path).1 = .error fault := by rw [hl]
    rw [contained_of_error hload] at hc
    refine ⟨.load fault, ?_⟩
    rw [ofGroups, if_neg (by simp [Token.never]), hl]
    simp only [hc, Bool.false_eq_true, if_false]
  · have hload : (ws.load path).1 = .ok document := by rw [hl]
    rw [contained_of_ok hload] at hc
    rcases hf : (ofFindings oracle document [] ds).counts with failure | counts
    · refine ⟨.failure failure, ?_⟩
      rw [ofGroups, if_neg (by simp [Token.never]), hl]
      simp only [hf]
    · exact absurd ((ofFindings_ok_iff oracle document ds [] counts).1 hf).1 hc

end Files

/-- What a load gives is the same after another load. -/
theorem load_after_load (ws : Workspace) (path other : String) :
    ((ws.load path).2.load other).1 = (ws.load other).1 :=
  ws.loader.load_load ws.tree path other

theorem Contained.congr {oracle : Oracle} {ws ws' : Workspace} {path : String} {ds : List Diagnostic}
    (h : (ws'.load path).1 = (ws.load path).1) : Contained oracle ws' path ds ↔ Contained oracle ws path ds := by
  constructor
  · rintro ⟨hload, hanswers⟩
    exact ⟨by rwa [h] at hload, by rwa [h] at hanswers⟩
  · rintro ⟨hload, hanswers⟩
    exact ⟨by rwa [h], by rwa [h]⟩

/-- A listing of groups comes through exactly if all that fails is contained, and then it has the
counter of each file that has one. -/
theorem ofGroups_ok_iff (oracle : Oracle) (ws : Workspace) (groups : Table String (List Diagnostic)) :
    ∀ (now : Workspace) (asked : Nat) (table : Table String FixCounts),
      (∀ path, (now.load path).1 = (ws.load path).1) →
      ((ofGroups oracle Token.never now asked groups).counts = .ok table ↔
        (∀ row ∈ groups, Contained oracle ws row.1 row.2) ∧
          table = groups.filterMap fun row => (row? oracle ws row.1 row.2).map (row.1, ·)) := by
  induction groups with
  | nil =>
    intro now asked table _
    simp [ofGroups, eq_comm]
  | cons row rest ih =>
    obtain ⟨path, ds⟩ := row
    intro now asked table hnow
    rw [List.forall_mem_cons, ← Contained.congr (hnow path)]
    by_cases hc : Contained oracle now path ds
    · obtain ⟨later, hcounts⟩ := ofGroups_contained asked rest hc
      -- the other files are loaded as if this one had not been
      have hrest := fun others => ih (now.load path).2 later others
        fun other => (load_after_load now path other).trans (hnow other)
      have hrow : row? oracle now path ds = row? oracle ws path ds := by
        unfold row?
        rw [hnow path]
      have happend : List.filterMap (fun row => (row? oracle ws row.1 row.2).map (row.1, ·)) ((path, ds) :: rest) =
          ((row? oracle now path ds).map (path, ·)).toList ++
            rest.filterMap fun row => (row? oracle ws row.1 row.2).map (row.1, ·) := by
        rw [List.filterMap_cons, hrow]
        rcases row? oracle ws path ds with _ | counts <;> rfl
      rw [hcounts, happend]
      rcases hr : (ofGroups oracle Token.never (now.load path).2 later rest).counts with fault | others
      · simp only [Except.map, reduceCtorEq, hc, true_and, false_iff]
        rintro ⟨hall, -⟩
        have hok := (hrest _).2 ⟨hall, rfl⟩
        rw [hr] at hok
        cases hok
      · obtain ⟨hall, rfl⟩ := (hrest others).1 hr
        simp only [Except.map, Except.ok.injEq, hc, true_and]
        exact ⟨fun h => ⟨hall, h.symm⟩, fun h => h.2.symm⟩
    · obtain ⟨fault, hcounts⟩ := ofGroups_broken asked rest hc
      simp [hcounts, hc]

/-! ## Listings -/

/-- The files that findings name, in the order in which they are first named. -/
def pathsOf (ds : List Diagnostic) : List String :=
  firstOccurrences (ds.filterMap (·.file?))

/-- The counters of the files that have one. -/
def listed (oracle : Oracle) (ws : Workspace) (ds : List Diagnostic) : Table String FixCounts :=
  (pathsOf ds).filterMap fun path => (row? oracle ws path (findingsOf path ds)).map (path, ·)

/-- Can the file be loaded? -/
def readable (ws : Workspace) (path : String) : Bool :=
  (ws.load path).1.isOk

/-- The findings but for those whose file cannot be loaded. -/
def legible (ws : Workspace) (ds : List Diagnostic) : List Diagnostic :=
  ds.filter fun d => d.file?.all (readable ws)

section Listings

variable {ε : Type} (oracle : Oracle) (ws : Workspace) (ds : List Diagnostic)

theorem ofAnalysis_ok_iff (counts : Table String FixCounts) :
    (ofAnalysis Token.never (Analysis.given (ε := ε) ws oracle ds)).counts = .ok counts ↔
      (∀ path ∈ pathsOf ds, Contained oracle ws path (findingsOf path ds)) ∧ counts = listed oracle ws ds := by
  have hgroups := ofGroups_ok_iff oracle ws (Grouping.ofDiagnostics ds).groups ws 0 counts fun _ => rfl
  have hlisting : (ofAnalysis Token.never (Analysis.given (ε := ε) ws oracle ds)).counts = .ok counts ↔
      (ofGroups oracle Token.never ws 0 (Grouping.ofDiagnostics ds).groups).counts = .ok counts := by
    simp only [ofAnalysis, Analysis.given, Result.after]
    rcases (ofGroups oracle Token.never ws 0 (Grouping.ofDiagnostics ds).groups).counts with _ | _ <;>
      simp [Except.mapError]
  rw [hlisting, hgroups, Grouping.groups_eq, List.forall_mem_map, List.filterMap_map]
  rfl

theorem pathsOf_legible : pathsOf (legible ws ds) = (pathsOf ds).filter (readable ws) := by
  unfold pathsOf legible
  rw [← firstOccurrences_filter]
  congr 1
  induction ds with
  | nil => rfl
  | cons d rest ih =>
    rcases hf : d.file? with _ | path
    · simpa [hf] using ih
    · by_cases hr : readable ws path = true
      · simpa [hf, hr] using ih
      · simpa [hf, hr] using ih

variable {ws} in
theorem findingsOf_legible {path : String} (hr : readable ws path = true) :
    findingsOf path (legible ws ds) = findingsOf path ds := by
  unfold findingsOf legible
  rw [List.filter_filter]
  refine List.filter_congr fun d _ => ?_
  by_cases hf : d.file? = some path
  · simp [hf, hr]
  · simp [hf]

/-- Files that cannot be loaded add nothing to a listing, and a failed query adds no more than an
empty answer. -/
theorem listed_legible : listed oracle.silent ws (legible ws ds) = listed oracle ws ds := by
  unfold listed
  rw [pathsOf_legible, List.filterMap_filter]
  refine List.filterMap_congr fun path _ => ?_
  by_cases hr : readable ws path = true
  · rw [if_pos hr, findingsOf_legible ds hr]
    rfl
  · rw [if_neg hr]
    unfold readable at hr
    rcases hl : (ws.load path).1 with fault | document
    · rw [row?_of_error hl, Option.map_none]
    · rw [hl] at hr
      exact absurd rfl hr

theorem contained_silent {path : String} (hr : readable ws path = true) (fs : List Diagnostic) :
    Contained oracle.silent ws path fs := by
  unfold readable at hr
  constructor
  · intro fault hl
    rw [hl] at hr
    cases hr
  · rintro document - d - failure ⟨⟩

/-- A listing contains the failures it is made to contain. There always is the listing in which failed
queries count as empty answers and files that cannot be loaded are left out; a listing comes through
with just these counters if every load that fails finds its file unreadable and every query that
fails is declined, and any other failure ends it. -/
theorem listing_contains_failures :
    ∃ counts, (ofAnalysis Token.never (Analysis.given (ε := ε) ws oracle.silent (legible ws ds))).counts = .ok counts ∧
      ((∀ path ∈ pathsOf ds, Contained oracle ws path (findingsOf path ds)) →
        (ofAnalysis Token.never (Analysis.given (ε := ε) ws oracle ds)).counts = .ok counts) ∧
      ((∃ path ∈ pathsOf ds, ¬ Contained oracle ws path (findingsOf path ds)) →
        ∃ fault, (ofAnalysis Token.never (Analysis.given (ε := ε) ws oracle ds)).counts = .error fault) := by
  refine ⟨listed oracle ws ds, ?_, fun hall => ?_, ?_⟩
  · refine (ofAnalysis_ok_iff ..).2 ⟨fun path hpath => ?_, (listed_legible oracle ws ds).symm⟩
    rw [pathsOf_legible] at hpath
    exact contained_silent oracle ws (List.mem_filter.1 hpath).2 _
  · exact (ofAnalysis_ok_iff ..).2 ⟨hall, rfl⟩
  · rintro ⟨path, hpath, hnot⟩
    rcases hc : (ofAnalysis Token.never (Analysis.given (ε := ε) ws oracle ds)).counts with fault | counts
    · exact ⟨fault, rfl⟩
    · exact absurd (((ofAnalysis_ok_iff ..).1 hc).1 path hpath) hnot

end Listings

/-! ## A file, a query that fails and a file that is not there -/

/-- Two files of one folder. -/
def shelf : Workspace :=
  ⟨⟨[(["a"], .file [49]), (["b"], .file [50])], []⟩, Loader.new none "utf-8"⟩

/-- A finding in each of the two files, and one in a file that is not there. -/
def scattered : List Diagnostic :=
  [⟨"E1", some "a", 0, 1, ""⟩, ⟨"E2", some "b", 0, 1, ""⟩, ⟨"E3", some "c", 0, 1, ""⟩]

/-- An oracle that fails on one finding and has a fix for the others. -/
def failingOnce (failure : Failure) : Oracle :=
  ⟨fun d _ => if d.code = "E1" then .error failure else .ok [⟨"fix", "", [], none⟩], true⟩

/-- A query that is declined and a file that is not there are left out. -/
theorem shelf_listing_contains_failures :
    (ofAnalysis Token.never (Analysis.given (ε := Empty) shelf (failingOnce (.declined "offline")) scattered)).counts =
      .ok [("b", [("fix fixes E2", 1)])] := by
  have hanswers : ∀ document d, (failingOnce (.declined "offline")).Answers document d := by
    intro document d failure hfails
    simp only [failingOnce] at hfails
    split at hfails
    · cases hfails; exact ⟨"offline", rfl⟩
    · cases hfails
  have hcontained : ∀ path ∈ pathsOf scattered,
      Contained (failingOnce (.declined "offline")) shelf path (findingsOf path scattered) := by
    intro path hpath
    have hnames : path ∈ ["a", "b", "c"] := hpath
    simp only [List.mem_cons, List.not_mem_nil, or_false] at hnames
    rcases hnames with rfl | rfl | rfl
    · have hl : (shelf.load "a").1 = .ok ⟨"a", "1"⟩ := rfl
      exact (contained_of_ok hl).2 fun d _ => hanswers _ d
    · have hl : (shelf.load "b").1 = .ok ⟨"b", "2"⟩ := rfl
      exact (contained_of_ok hl).2 fun d _ => hanswers _ d
    · have hl : (shelf.load "c").1 = .error (.file (.named .notFound (FilePath.ofString "c"))) := rfl
      exact (contained_of_error hl).2 rfl
  obtain ⟨counts, hsilent, hlisted, -⟩ :=
    listing_contains_failures (ε := Empty) (failingOnce (.declined "offline")) shelf scattered
  rw [hlisted hcontained, ← hsilent]
  rfl

/-- An oracle that fails in another way ends the listing, and with it the count of every other file. -/
theorem broken_query_ends_listing :
    (ofAnalysis Token.never (Analysis.given (ε := Empty) shelf (failingOnce (.broken "RuntimeError" "offline"))
      scattered)).counts = .error (.inr (.failure (.broken "RuntimeError" "offline"))) ∧
    (ofAnalysis Token.never (Analysis.given (ε := Empty) shelf (failingOnce (.broken "RuntimeError" "offline")).silent
      (legible shelf scattered))).counts = .ok [("b", [("fix fixes E2", 1)])] := by
  constructor <;> rfl

end Listing

end Amend
