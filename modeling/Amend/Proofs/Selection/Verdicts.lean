/-
The verdicts of a selection. One that ends well passes exactly one verdict on each finding that it
keeps, in order: the finding is a duplicate exactly if an earlier one with its start was fixed, and
otherwise fixed exactly if the rules leave edits for it. The verdicts fix everything else that a
selection gives: its events, the queries it puts and its patches.
-/
import Amend.Proofs.Selection.Judge
import Mathlib.Data.List.Forall2
import Mathlib.Data.List.Nodup

namespace Amend

/-! ## What the rules leave -/

/-- The edits that the rules make of a fix. -/
def Rules.editsOf (rules : Rules) (document : Document) (d : Diagnostic) (c : Candidate) : List Edit :=
  rules.rework.elim c.edits fun rework => (rework c.edits document d).toOption.getD []

theorem Rules.reworked_ok {rules : Rules} {document : Document} {d : Diagnostic} {c : Candidate} {edits : List Edit}
    (h : rules.reworked document d c = .ok edits) : rules.editsOf document d c = edits := by
  unfold reworked at h
  unfold editsOf
  rcases hr : rules.rework with _ | rework
  · rw [hr] at h
    cases h
    rfl
  · rw [hr, Option.elim_some] at h
    rw [Option.elim_some, h]
    rfl

namespace Selection

/-- The fixes on offer for a finding that the rules accept. A query that fails offers none. -/
def options (oracle : Oracle) (rules : Rules) (document : Document) (d : Diagnostic) : List Candidate :=
  match oracle.answer d document with
  | .ok candidates => candidates.filter rules.accepts
  | .error _ => []

/-- The edits that the rules make of the first fix that they accept. -/
def editsFor (oracle : Oracle) (rules : Rules) (document : Document) (d : Diagnostic) : List Edit :=
  match options oracle rules document d with
  | [] => []
  | c :: _ => rules.editsOf document d c

/-- The event that several fixes are on offer, if they are. -/
def contest (oracle : Oracle) (rules : Rules) (document : Document) (d : Diagnostic) : List Event :=
  if 2 ≤ (options oracle rules document d).length then
    [⟨some document.path, some d, .ambiguous, ", ".intercalate ((options oracle rules document d).map (·.name))⟩]
  else []

variable {oracle : Oracle} {rules : Rules} {token : Token} {document : Document} {d : Diagnostic}

theorem options_ok {candidates kept : List Candidate} (hanswer : oracle.answer d document = .ok candidates)
    (ha : rules.accepted candidates = .ok kept) : options oracle rules document d = kept := by
  unfold options
  rw [hanswer, Rules.accepted_ok ha]

/-- Before a decision it is said that several fixes are on offer, if they are. -/
theorem events_said {decision : Decision} (h : (judge rules document d (oracle.answer d document)).2 = .ok decision) :
    (said oracle rules document d).events = contest oracle rules document d := by
  have hj := judged rules document d (oracle.answer d document)
  generalize hanswer : oracle.answer d document = answer at hj h
  rw [h] at hj
  unfold said contest
  rw [Journal.events_cons_query, hanswer]
  cases hj with
  | unanswered failure detail =>
    unfold options
    rw [hanswer]
    rfl
  | bare candidates ha =>
    rw [judge_journal, options_ok hanswer ha, ha]
    rfl
  | emptied candidates c more _ ha | fixed candidates c more _ ha =>
    rw [judge_journal, options_ok hanswer ha, ha]
    simp only [ambiguity]
    rcases more with _ | ⟨c', more⟩
    · rfl
    · simp [event]

/-- What a decision says of the edits that the rules leave for a finding. -/
def Decision.Of (edits : List Edit) : Decision → Prop
  | .fixed _ chosen => chosen = edits ∧ edits ≠ []
  | .unfixed _ => edits = []

/-- A decision is made on the edits that the rules leave. -/
theorem judge_decides {decision : Decision} (h : (judge rules document d (oracle.answer d document)).2 = .ok decision) :
    decision.Of (editsFor oracle rules document d) := by
  have hj := judged rules document d (oracle.answer d document)
  have hne : ∀ {name edits}, decision = .fixed name edits → edits ≠ [] := fun hd => judge_fixed (hd ▸ h)
  generalize hanswer : oracle.answer d document = answer at hj h
  rw [h] at hj
  unfold editsFor
  cases hj with
  | unanswered failure detail =>
    unfold options
    rw [hanswer]
    rfl
  | bare candidates ha =>
    rw [options_ok hanswer ha]
    rfl
  | emptied candidates c more detail ha hr =>
    rw [options_ok hanswer ha]
    exact Rules.reworked_ok hr
  | fixed candidates c more edits ha hr =>
    rw [options_ok hanswer ha]
    simp only [Rules.reworked_ok hr]
    exact ⟨rfl, hne rfl⟩

/-! ## The verdicts of a walk -/

/-- The verdicts on findings, one after the other, while the starts `claimed` are taken. -/
inductive Verdicts (oracle : Oracle) (rules : Rules) (document : Document) :
    List Int → List Diagnostic → List Event → Prop
  | nil (claimed : List Int) : Verdicts oracle rules document claimed [] []
  | duplicate {claimed : List Int} {d : Diagnostic} {rest : List Diagnostic} {later : List Event} (detail : String)
      (hd : d.start ∈ claimed) (h : Verdicts oracle rules document claimed rest later) :
      Verdicts oracle rules document claimed (d :: rest)
        (⟨some document.path, some d, .skippedDuplicate, detail⟩ :: later)
  | unfixed {claimed : List Int} {d : Diagnostic} {rest : List Diagnostic} {later : List Event} (detail : String)
      (hd : d.start ∉ claimed) (hedits : editsFor oracle rules document d = [])
      (h : Verdicts oracle rules document claimed rest later) :
      Verdicts oracle rules document claimed (d :: rest) (⟨some document.path, some d, .noFix, detail⟩ :: later)
  | fixed {claimed : List Int} {d : Diagnostic} {rest : List Diagnostic} {later : List Event} (name : String)
      (hd : d.start ∉ claimed) (hedits : editsFor oracle rules document d ≠ [])
      (h : Verdicts oracle rules document (d.start :: claimed) rest later) :
      Verdicts oracle rules document claimed (d :: rest) (⟨some document.path, some d, .fixed, name⟩ :: later)

/-- The verdicts among events. The others say that several fixes are on offer. -/
def verdictsOf (events : List Event) : List Event :=
  events.filter (·.outcome ≠ .ambiguous)

/-- The findings of the verdicts before which the oracle is asked. -/
def judgedIn (verdicts : List Event) : List Diagnostic :=
  (verdicts.filter (·.outcome ≠ .skippedDuplicate)).filterMap (·.diagnostic)

/-- The events with which a verdict is passed. -/
def pronounced (oracle : Oracle) (rules : Rules) (document : Document) (verdict : Event) : List Event :=
  (judgedIn [verdict]).flatMap (contest oracle rules document) ++ [verdict]

/-- The patches of findings that are fixed. -/
def patchesFor (oracle : Oracle) (rules : Rules) (document : Document) (ds : List Diagnostic) : List Patch :=
  ds.flatMap fun d => (editsFor oracle rules document d).map (Patch.mk d)

/-- A walk gives what its verdicts call for. -/
structure Follows (oracle : Oracle) (rules : Rules) (document : Document) (verdicts : List Event) (w : Walk) :
    Prop where
  events : w.journal.events = verdicts.flatMap (pronounced oracle rules document)
  queries : w.journal.queries = judgedIn verdicts
  patches : w.patches = patchesFor oracle rules document (fixedIn verdicts)

theorem judgedIn_append (a b : List Event) : judgedIn (a ++ b) = judgedIn a ++ judgedIn b := by
  unfold judgedIn
  rw [List.filter_append, List.filterMap_append]

theorem Follows.after {verdicts : List Event} {w : Walk} (h : Follows oracle rules document verdicts w)
    {journal : Journal} {patches : List Patch} {verdict : Event}
    (hevents : journal.events = pronounced oracle rules document verdict)
    (hqueries : journal.queries = judgedIn [verdict])
    (hpatches : patches = patchesFor oracle rules document (fixedIn [verdict])) :
    Follows oracle rules document (verdict :: verdicts) (w.after patches journal) where
  events := by
    rw [List.flatMap_cons, ← hevents, ← h.events]
    exact Journal.events_append ..
  queries := by
    rw [← List.singleton_append, judgedIn_append, ← hqueries, ← h.queries]
    exact Journal.queries_append ..
  patches := by
    rw [← List.singleton_append, fixedIn_append, patchesFor, List.flatMap_append]
    change patches ++ w.patches = patchesFor .. ++ patchesFor ..
    rw [← hpatches, ← h.patches]

/-- A walk that ends well passes a verdict on each of its findings, and does what they call for. -/
theorem walk_verdicts (ds : List Diagnostic) : ∀ (claimed : List Int) (asked : Nat),
    (walk oracle rules token document claimed asked ds).ending = .ok () →
    ∃ verdicts, Verdicts oracle rules document claimed ds verdicts ∧
      Follows oracle rules document verdicts (walk oracle rules token document claimed asked ds) := by
  induction ds with
  | nil =>
    intro claimed asked _
    exact ⟨[], .nil claimed, rfl, rfl, rfl⟩
  | cons d rest ih =>
    intro claimed asked hend
    have hturn := walk_turn oracle rules token document claimed asked d rest
    generalize walk oracle rules token document claimed asked (d :: rest) = w at hturn hend ⊢
    cases hturn with
    | stopped hset => cases hend
    | broken failure hset hd hj => cases hend
    | duplicate hset hd =>
      obtain ⟨verdicts, hv, hf⟩ := ih claimed asked hend
      exact ⟨_, .duplicate _ hd hv, hf.after rfl rfl rfl⟩
    | unfixed detail hset hd hj =>
      obtain ⟨verdicts, hv, hf⟩ := ih claimed (asked + 1) hend
      refine ⟨_, .unfixed detail hd (judge_decides hj) hv, hf.after ?_ ?_ rfl⟩
      · rw [Journal.events_append, events_said hj]
        simp [pronounced, judgedIn, event]
      · rw [Journal.queries_append, queries_said]
        rfl
    | fixed name edits hset hd hj =>
      obtain ⟨verdicts, hv, hf⟩ := ih (d.start :: claimed) (asked + 1) hend
      obtain ⟨rfl, hedits⟩ := judge_decides hj
      refine ⟨_, .fixed name hd hedits hv, hf.after ?_ ?_ ?_⟩
      · rw [Journal.events_append, events_said hj]
        simp [pronounced, judgedIn, event]
      · rw [Journal.queries_append, queries_said]
        rfl
      · simp [patchesFor, fixedIn]

/-! ## What the verdicts say -/

/-- The verdict on a finding: it is fixed, or a duplicate, or not fixed. -/
structure IsVerdict (document : Document) (d : Diagnostic) (e : Event) : Prop where
  path : e.path = some document.path
  diagnostic : e.diagnostic = some d
  outcome : e.outcome = .fixed ∨ e.outcome = .skippedDuplicate ∨ e.outcome = .noFix

namespace Verdicts

variable {claimed : List Int} {ds : List Diagnostic} {verdicts : List Event}

theorem forall₂ (h : Verdicts oracle rules document claimed ds verdicts) :
    List.Forall₂ (IsVerdict document) ds verdicts := by
  induction h with
  | nil => exact .nil
  | duplicate detail hd h ih => exact .cons ⟨rfl, rfl, .inr (.inl rfl)⟩ ih
  | unfixed detail hd hedits h ih => exact .cons ⟨rfl, rfl, .inr (.inr rfl)⟩ ih
  | fixed name hd hedits h ih => exact .cons ⟨rfl, rfl, .inl rfl⟩ ih

theorem decisive (h : Verdicts oracle rules document claimed ds verdicts) : ∀ e ∈ verdicts, e.outcome ≠ .ambiguous := by
  induction h with
  | nil => intro e he; cases he
  | duplicate _ _ _ ih | unfixed _ _ _ _ ih | fixed _ _ _ _ ih =>
    exact List.forall_mem_cons.2 ⟨Outcome.noConfusion, ih⟩

/-- A finding that is not a duplicate is fixed exactly if the rules leave edits for it. -/
theorem fixed_iff (h : Verdicts oracle rules document claimed ds verdicts) :
    ∀ e ∈ verdicts, e.outcome ≠ .skippedDuplicate →
      ∃ d ∈ ds, e.diagnostic = some d ∧ (e.outcome = .fixed ↔ editsFor oracle rules document d ≠ []) := by
  have hlater : ∀ {d : Diagnostic} {rest : List Diagnostic} {e : Event},
      (∃ d' ∈ rest, e.diagnostic = some d' ∧ (e.outcome = .fixed ↔ editsFor oracle rules document d' ≠ [])) →
      ∃ d' ∈ d :: rest, e.diagnostic = some d' ∧ (e.outcome = .fixed ↔ editsFor oracle rules document d' ≠ []) := by
    rintro d rest e ⟨d', hd', hfacts⟩
    exact ⟨d', List.mem_cons_of_mem _ hd', hfacts⟩
  induction h with
  | nil => intro e he; cases he
  | duplicate detail hd h ih =>
    exact List.forall_mem_cons.2 ⟨fun hne => absurd rfl hne, fun e he hne => hlater (ih e he hne)⟩
  | unfixed detail hd hedits h ih =>
    refine List.forall_mem_cons.2 ⟨fun _ => ⟨_, List.mem_cons_self .., rfl, ?_⟩, fun e he hne => hlater (ih e he hne)⟩
    simp [hedits]
  | fixed name hd hedits h ih =>
    refine List.forall_mem_cons.2 ⟨fun _ => ⟨_, List.mem_cons_self .., rfl, ?_⟩, fun e he hne => hlater (ih e he hne)⟩
    simp [hedits]

/-- A finding is a duplicate exactly if its start was taken at first, or a fix took it since. -/
theorem duplicate_iff (h : Verdicts oracle rules document claimed ds verdicts) {e : Event} {before after : List Event}
    (hsplit : verdicts = before ++ e :: after) :
    e.outcome = .skippedDuplicate ↔
      ∃ d, e.diagnostic = some d ∧ (d.start ∈ claimed ∨ d.start ∈ (fixedIn before).map (·.start)) := by
  induction h generalizing before with
  | nil => cases before <;> cases hsplit
  | duplicate detail hd h ih =>
    rcases before with _ | ⟨first, before⟩
    · cases hsplit
      exact ⟨fun _ => ⟨_, rfl, .inl hd⟩, fun _ => rfl⟩
    · cases hsplit
      exact @ih before rfl
  | unfixed detail hd hedits h ih =>
    rcases before with _ | ⟨first, before⟩
    · cases hsplit
      simp [fixedIn, hd]
    · cases hsplit
      exact @ih before rfl
  | @fixed claimed d rest later name hd hedits h ih =>
    rcases before with _ | ⟨first, before⟩
    · cases hsplit
      simp [fixedIn, hd]
    · cases hsplit
      rw [ih rfl]
      refine exists_congr fun d' => and_congr_right fun _ => ?_
      -- the start of the fix is the one that became taken
      change _ ↔ d'.start ∈ claimed ∨ d'.start ∈ d.start :: (fixedIn before).map (·.start)
      rw [List.mem_cons, List.mem_cons, or_assoc, or_left_comm]

end Verdicts

theorem verdictsOf_append (a b : List Event) : verdictsOf (a ++ b) = verdictsOf a ++ verdictsOf b :=
  List.filter_append ..

theorem verdictsOf_pronounced {e : Event} (h : e.outcome ≠ .ambiguous) :
    verdictsOf (pronounced oracle rules document e) = [e] := by
  have hcontest : verdictsOf ((judgedIn [e]).flatMap (contest oracle rules document)) = [] := by
    refine List.filter_eq_nil_iff.2 fun e' he' => ?_
    obtain ⟨d, _, hc⟩ := List.mem_flatMap.1 he'
    unfold contest at hc
    split at hc
    · simp [List.mem_singleton.1 hc]
    · cases hc
  unfold pronounced
  rw [verdictsOf_append, hcontest]
  simp [verdictsOf, h]

theorem verdictsOf_flatMap {verdicts : List Event} (h : ∀ e ∈ verdicts, e.outcome ≠ .ambiguous) :
    verdictsOf (verdicts.flatMap (pronounced oracle rules document)) = verdicts := by
  induction verdicts with
  | nil => rfl
  | cons e rest ih =>
    rw [List.forall_mem_cons] at h
    rw [List.flatMap_cons, verdictsOf_append, verdictsOf_pronounced h.1, ih h.2]
    rfl

theorem fixedIn_verdictsOf (events : List Event) : fixedIn (verdictsOf events) = fixedIn events := by
  unfold fixedIn verdictsOf
  rw [List.filterMap_filter]
  refine List.filterMap_congr fun e _ => ?_
  by_cases he : e.outcome = .ambiguous <;> simp [he]

/-! ## Selections -/

theorem select_verdicts {asked : Nat} {ds : List Diagnostic}
    (h : (select oracle rules token asked document ds).ending = .ok ()) :
    ∃ verdicts, Verdicts oracle rules document [] (ds.filter rules.passes) verdicts ∧
      Follows oracle rules document verdicts (select oracle rules token asked document ds).toWalk := by
  unfold select at h ⊢
  split
  · rename_i failure hk
    rw [hk] at h
    cases h
  · rename_i kept hk
    rw [← Rules.kept_ok hk]
    simp only [hk] at h
    split
    · rename_i hskip
      simp only [Bool.and_eq_true, List.isEmpty_iff] at hskip
      rw [hskip.2]
      exact ⟨[], .nil [], rfl, rfl, rfl⟩
    · rename_i hskip
      rw [if_neg hskip] at h
      exact walk_verdicts kept [] asked h

/-- What the events of a selection over findings say, and what it asks and tells on the way. -/
structure Reports (oracle : Oracle) (rules : Rules) (document : Document) (ds : List Diagnostic)
    (selection : Selection) : Prop where
  verdicts : List.Forall₂ (IsVerdict document) (ds.filter rules.passes) (verdictsOf selection.outcomes)
  duplicates : ∀ before e after, verdictsOf selection.outcomes = before ++ e :: after →
    (e.outcome = .skippedDuplicate ↔ ∃ d, e.diagnostic = some d ∧ d.start ∈ (fixedIn before).map (·.start))
  fixes : ∀ e ∈ verdictsOf selection.outcomes, e.outcome ≠ .skippedDuplicate →
    ∃ d, e.diagnostic = some d ∧ (e.outcome = .fixed ↔ editsFor oracle rules document d ≠ [])
  contests : selection.outcomes = (verdictsOf selection.outcomes).flatMap (pronounced oracle rules document)
  queries : selection.journal.queries = judgedIn (verdictsOf selection.outcomes)
  sink : ∀ {σ : Type} (sink : σ → Event → σ) (state : σ),
    selection.journal.tell sink state = selection.outcomes.foldl sink state

/-- The verdicts of a selection that ends well are those among its events. -/
theorem select_follows {asked : Nat} {ds : List Diagnostic}
    (h : (select oracle rules token asked document ds).ending = .ok ()) :
    Verdicts oracle rules document [] (ds.filter rules.passes)
        (verdictsOf (select oracle rules token asked document ds).outcomes) ∧
      Follows oracle rules document (verdictsOf (select oracle rules token asked document ds).outcomes)
        (select oracle rules token asked document ds).toWalk := by
  obtain ⟨verdicts, hv, hf⟩ := select_verdicts h
  have hverdicts : verdictsOf (select oracle rules token asked document ds).outcomes = verdicts := by
    rw [← verdictsOf_flatMap hv.decisive, ← hf.events]
    rfl
  rw [hverdicts]
  exact ⟨hv, hf⟩

theorem select_reports {asked : Nat} {ds : List Diagnostic}
    (h : (select oracle rules token asked document ds).ending = .ok ()) :
    Reports oracle rules document ds (select oracle rules token asked document ds) := by
  obtain ⟨hv, hf⟩ := select_follows h
  refine ⟨hv.forall₂, fun before e after hsplit => ?_, fun e he hne => ?_, hf.events, hf.queries, fun sink state => ?_⟩
  · simpa using hv.duplicate_iff hsplit
  · obtain ⟨d, -, hfacts⟩ := hv.fixed_iff e he hne
    exact ⟨d, hfacts⟩
  · exact Journal.tell_eq_foldl sink _ state

/-- Findings of which two share a start, one has no fix, and the rules keep all but the last. -/
def rivalFindings : List Diagnostic :=
  [⟨"E1", some "a", 0, 1, ""⟩, ⟨"E2", some "a", 0, 1, ""⟩, ⟨"E3", some "a", 4, 1, ""⟩, ⟨"W1", some "a", 6, 1, ""⟩]

/-- Three fixes for every finding but one. -/
def rivalOracle : Oracle where
  answer d _ := .ok <| if d.code = "E3" then [] else
    ["worst", "first", "second"].map fun name => ⟨name, "", [.delete d.start (d.start + 1)], none⟩
  concurrent := true

/-- Warnings are passed over, and so is the worst fix. -/
def rivalRules : Rules where
  keep := some fun d => .ok (d.code ≠ "W1")
  accept := some fun c => .ok (c.name ≠ "worst")
  rework := some fun edits _ _ => .ok (edits ++ edits)

theorem rival_select_reports :
    (select rivalOracle rivalRules Token.never 0 ⟨"a", "abcdefgh"⟩ rivalFindings).ending = .ok () ∧
    (select rivalOracle rivalRules Token.never 0 ⟨"a", "abcdefgh"⟩ rivalFindings).outcomes.map (·.outcome) =
      [.ambiguous, .fixed, .skippedDuplicate, .noFix] ∧
    Reports rivalOracle rivalRules ⟨"a", "abcdefgh"⟩ rivalFindings
      (select rivalOracle rivalRules Token.never 0 ⟨"a", "abcdefgh"⟩ rivalFindings) :=
  ⟨by rfl, by decide, select_reports (by rfl)⟩

/-- What the patches of a selection over findings are, and from which findings they come. -/
structure Patched (oracle : Oracle) (rules : Rules) (document : Document) (ds : List Diagnostic)
    (selection : Selection) : Prop where
  entries : selection.patches.patches = patchesFor oracle rules document (fixedIn selection.outcomes)
  edits : ∀ d ∈ fixedIn selection.outcomes, editsFor oracle rules document d ≠ []
  starts : ((fixedIn selection.outcomes).map (·.start)).Nodup
  same : ∀ p ∈ selection.patches.patches, ∀ q ∈ selection.patches.patches,
    p.diagnostic.start = q.diagnostic.start → p.diagnostic = q.diagnostic
  kept : ∀ p ∈ selection.patches.patches, p.diagnostic ∈ ds ∧ rules.passes p.diagnostic = true
  unfixed : ∀ p ∈ selection.patches.patches, ∀ e ∈ selection.outcomes, e.outcome = .noFix →
    e.diagnostic ≠ some p.diagnostic
  duplicates : ∀ before e after, verdictsOf selection.outcomes = before ++ e :: after → e.outcome = .skippedDuplicate →
    ∀ p ∈ selection.patches.patches, e.diagnostic = some p.diagnostic → p.diagnostic ∈ fixedIn before

theorem select_patched {asked : Nat} {ds : List Diagnostic}
    (h : (select oracle rules token asked document ds).ending = .ok ()) :
    Patched oracle rules document ds (select oracle rules token asked document ds) := by
  obtain ⟨hv, hf⟩ := select_follows h
  have hsound := sound_select oracle rules token asked document ds
  generalize select oracle rules token asked document ds = selection at hv hf hsound ⊢
  have hentries : selection.patches.patches = patchesFor oracle rules document (fixedIn selection.outcomes) := by
    rw [← fixedIn_verdictsOf]
    exact hf.patches
  have hfixed : ∀ d ∈ fixedIn selection.outcomes, d ∈ ds.filter rules.passes ∧ editsFor oracle rules document d ≠ [] := by
    intro d hd
    rw [← fixedIn_verdictsOf] at hd
    obtain ⟨e, he, hsome, ho⟩ := mem_fixedIn hd
    obtain ⟨d', hd', hsome', hiff⟩ := hv.fixed_iff e he (by simp [ho])
    obtain rfl : d = d' := Option.some.inj (hsome.symm.trans hsome')
    exact ⟨hd', hiff.1 ho⟩
  have hstarts : ((fixedIn selection.outcomes).map (·.start)).Nodup := hsound.starts
  have hinj : ∀ d ∈ fixedIn selection.outcomes, ∀ d' ∈ fixedIn selection.outcomes, d.start = d'.start → d = d' :=
    fun d hd d' hd' => List.inj_on_of_nodup_map hstarts hd hd'
  have hpatch : ∀ p ∈ selection.patches.patches, p.diagnostic ∈ fixedIn selection.outcomes := fun p hp =>
    (hsound.patches p.diagnostic).1 (List.mem_map.2 ⟨p, hp, rfl⟩)
  refine ⟨hentries, fun d hd => (hfixed d hd).2, hstarts, fun p hp q hq => hinj _ (hpatch p hp) _ (hpatch q hq),
    fun p hp => List.mem_filter.1 (hfixed _ (hpatch p hp)).1, fun p hp e he ho hd => ?_,
    fun before e after hsplit ho p hp hd => ?_⟩
  · have hverdict : e ∈ verdictsOf selection.outcomes := List.mem_filter.2 ⟨he, by simp [ho]⟩
    obtain ⟨d, -, hsome, hiff⟩ := hv.fixed_iff e hverdict (by simp [ho])
    obtain rfl : d = p.diagnostic := Option.some.inj (hsome.symm.trans hd)
    have hfix := hiff.2 (hfixed _ (hpatch p hp)).2
    rw [ho] at hfix
    cases hfix
  · obtain ⟨d, hd', hstart⟩ := (hv.duplicate_iff hsplit).1 ho
    obtain rfl : p.diagnostic = d := Option.some.inj (hd.symm.trans hd')
    obtain ⟨earlier, hearlier, heq⟩ := List.mem_map.1 (hstart.resolve_left (List.not_mem_nil))
    have hmem : earlier ∈ fixedIn selection.outcomes := by
      rw [← fixedIn_verdictsOf, hsplit, fixedIn_append]
      exact List.mem_append_left _ hearlier
    exact hinj earlier hmem _ (hpatch p hp) heq ▸ hearlier

theorem rival_select_patched :
    (select rivalOracle rivalRules Token.never 0 ⟨"a", "abcdefgh"⟩ rivalFindings).ending = .ok () ∧
    (select rivalOracle rivalRules Token.never 0 ⟨"a", "abcdefgh"⟩ rivalFindings).patches.patches.map (·.diagnostic.code) =
      ["E1", "E1"] ∧
    Patched rivalOracle rivalRules ⟨"a", "abcdefgh"⟩ rivalFindings
      (select rivalOracle rivalRules Token.never 0 ⟨"a", "abcdefgh"⟩ rivalFindings) :=
  ⟨by rfl, by decide, select_patched (by rfl)⟩

end Selection

end Amend
