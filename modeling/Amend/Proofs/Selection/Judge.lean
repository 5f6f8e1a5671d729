/-
What is decided on one finding, by the rules and the fixes on offer. A fix that is decided on bears
the name of one that was offered. A decision fails exactly if the rules do: the test of fixes fails
on one that was offered, or the rework fails on the first fix that is left. A selection breaks off
exactly if the test of findings fails on one of them, or a decision fails that it came to.
-/
import Amend.Proofs.Selection

namespace Amend

namespace Rules

variable (rules : Rules)

/-- The fixes that the rules accept. -/
def accepted (candidates : List Candidate) : Except Failure (List Candidate) :=
  rules.accept.elim (.ok candidates) (filterE · candidates)

/-- The edits of a fix as the rules rework them. -/
def reworked (document : Document) (d : Diagnostic) (c : Candidate) : Except Failure (List Edit) :=
  rules.rework.elim (.ok c.edits) (· c.edits document d)

/-- Does a fix pass the test that the rules put to fixes? -/
def accepts (c : Candidate) : Bool :=
  rules.accept.elim true fun accept => answersYes (accept c)

theorem accepted_ok {rules : Rules} {candidates kept : List Candidate} (h : rules.accepted candidates = .ok kept) :
    kept = candidates.filter rules.accepts :=
  filterE_elim_ok h

theorem mem_of_accepted {rules : Rules} {candidates kept : List Candidate} (h : rules.accepted candidates = .ok kept) :
    ∀ c ∈ kept, c ∈ candidates := by
  intro c hc
  rw [accepted_ok h] at hc
  exact (List.mem_filter.1 hc).1

end Rules

theorem filterE_error_iff {α ε : Type} (test : α → Except ε Bool) (items : List α) :
    (∃ e, filterE test items = .error e) ↔ ∃ a ∈ items, ∃ e, test a = .error e := by
  induction items with
  | nil => simp [filterE]
  | cons a rest ih =>
    rw [List.exists_mem_cons_iff, ← ih, filterE]
    rcases ha : test a with e | yes
    · simp [bind, Except.bind]
    · rcases hr : filterE test rest with e | others
      · simp [bind, Except.bind]
      · simp [bind, Except.bind, pure, Except.pure]

namespace Selection

variable {oracle : Oracle} {rules : Rules} {token : Token} {document : Document}

/-- All that a decision can come to. -/
inductive Judged (rules : Rules) (document : Document) (d : Diagnostic) :
    Except Failure (List Candidate) → Except Failure Decision → Prop
  | unanswered (failure : Failure) (detail : String) : Judged rules document d (.error failure) (.ok (.unfixed detail))
  | refused (candidates : List Candidate) (failure : Failure) (ha : rules.accepted candidates = .error failure) :
      Judged rules document d (.ok candidates) (.error failure)
  | bare (candidates : List Candidate) (ha : rules.accepted candidates = .ok []) :
      Judged rules document d (.ok candidates) (.ok (.unfixed ""))
  | spoiled (candidates : List Candidate) (c : Candidate) (more : List Candidate) (failure : Failure)
      (ha : rules.accepted candidates = .ok (c :: more)) (hr : rules.reworked document d c = .error failure) :
      Judged rules document d (.ok candidates) (.error failure)
  | emptied (candidates : List Candidate) (c : Candidate) (more : List Candidate) (detail : String)
      (ha : rules.accepted candidates = .ok (c :: more)) (hr : rules.reworked document d c = .ok []) :
      Judged rules document d (.ok candidates) (.ok (.unfixed detail))
  | fixed (candidates : List Candidate) (c : Candidate) (more : List Candidate) (edits : List Edit)
      (ha : rules.accepted candidates = .ok (c :: more)) (hr : rules.reworked document d c = .ok edits) :
      Judged rules document d (.ok candidates) (.ok (.fixed c.name edits))

theorem judge_answered (d : Diagnostic) (candidates : List Candidate) :
    (judge rules document d (.ok candidates)).2 = match rules.accepted candidates with
      | .error failure => .error failure
      | .ok [] => .ok (.unfixed "")
      | .ok (c :: _) => match rules.reworked document d c with
        | .error failure => .error failure
        | .ok [] => .ok (.unfixed s!"{c.name} produced no edits")
        | .ok edits => .ok (.fixed c.name edits) := by
  unfold judge
  change Prod.snd (match rules.accepted candidates with
    | .error failure => _
    | .ok [] => _
    | .ok (c :: more) => _) = _
  rcases rules.accepted candidates with failure | (_ | ⟨c, more⟩) <;> rfl

theorem judge_journal (d : Diagnostic) (candidates : List Candidate) :
    (judge rules document d (.ok candidates)).1 = match rules.accepted candidates with
      | .ok (c :: more) => ambiguity document d c more
      | _ => [] := by
  unfold judge
  change Prod.fst (match rules.accepted candidates with
    | .error failure => _
    | .ok [] => _
    | .ok (c :: more) => _) = _
  rcases rules.accepted candidates with failure | (_ | ⟨c, more⟩) <;> rfl

theorem judged (rules : Rules) (document : Document) (d : Diagnostic) (answer : Except Failure (List Candidate)) :
    Judged rules document d answer (judge rules document d answer).2 := by
  rcases answer with failure | candidates
  · exact .unanswered failure _
  rw [judge_answered]
  split
  · exact .refused candidates _ ‹_›
  · exact .bare candidates ‹_›
  · split
    · exact .spoiled candidates _ _ _ ‹_› ‹_›
    · exact .emptied candidates _ _ _ ‹_› ‹_›
    · exact .fixed candidates _ _ _ ‹_› ‹_›

/-- A fix that is decided on bears the name of one that was offered. -/
theorem judge_named {d : Diagnostic} {answer : Except Failure (List Candidate)} {name : String} {edits : List Edit}
    (h : (judge rules document d answer).2 = .ok (.fixed name edits)) :
    ∃ candidates, answer = .ok candidates ∧ ∃ c ∈ candidates, c.name = name := by
  have hj := judged rules document d answer
  rw [h] at hj
  cases hj with
  | fixed candidates c more _ ha hr =>
    exact ⟨candidates, rfl, c, Rules.mem_of_accepted ha c (List.mem_cons_self ..), rfl⟩

/-! ## Rules that fail -/

/-- The rules fail on a finding: the test of fixes on one of those that the oracle offers, or the
rework on the first one that is left. -/
inductive Upsets (oracle : Oracle) (rules : Rules) (document : Document) (d : Diagnostic) : Prop
  | accept (accept : Candidate → Except Failure Bool) (h : rules.accept = some accept) (candidates : List Candidate)
      (ha : oracle.answer d document = .ok candidates) (c : Candidate) (hc : c ∈ candidates) (failure : Failure)
      (hf : accept c = .error failure)
  | rework (rework : List Edit → Document → Diagnostic → Except Failure (List Edit)) (h : rules.rework = some rework)
      (candidates : List Candidate) (ha : oracle.answer d document = .ok candidates) (c : Candidate)
      (more : List Candidate) (hk : rules.accepted candidates = .ok (c :: more)) (failure : Failure)
      (hf : rework c.edits document d = .error failure)

theorem judge_error_iff (oracle : Oracle) (rules : Rules) (document : Document) (d : Diagnostic) :
    (∃ failure, (judge rules document d (oracle.answer d document)).2 = .error failure) ↔
      Upsets oracle rules document d := by
  constructor
  · rintro ⟨failure, h⟩
    have hj := judged rules document d (oracle.answer d document)
    generalize hanswer : oracle.answer d document = answer at h hj
    rw [h] at hj
    cases hj with
    | refused candidates _ ha =>
      unfold Rules.accepted at ha
      rcases hacc : rules.accept with _ | accept
      · rw [hacc] at ha; cases ha
      · rw [hacc] at ha
        obtain ⟨c, hc, failure', hf⟩ := (filterE_error_iff accept candidates).1 ⟨failure, ha⟩
        exact .accept accept hacc candidates hanswer c hc failure' hf
    | spoiled candidates c more _ ha hr =>
      unfold Rules.reworked at hr
      rcases hrew : rules.rework with _ | rework
      · rw [hrew] at hr; cases hr
      · rw [hrew] at hr
        exact .rework rework hrew candidates hanswer c more ha failure hr
  · intro h
    cases h with
    | accept accept hacc candidates ha c hc failure hf =>
      obtain ⟨failure', hf'⟩ := (filterE_error_iff accept candidates).2 ⟨c, hc, failure, hf⟩
      have hrefused : rules.accepted candidates = .error failure' := by
        unfold Rules.accepted
        rw [hacc]
        exact hf'
      exact ⟨failure', by rw [ha, judge_answered, hrefused]⟩
    | rework rework hrew candidates ha c more hk failure hf =>
      have hspoiled : rules.reworked document d c = .error failure := by
        unfold Rules.reworked
        rw [hrew]
        exact hf
      exact ⟨failure, by rw [ha, judge_answered, hk]; simp only [hspoiled]⟩

/-- A walk that nobody stops breaks off exactly if the rules fail on a finding that it asked about. -/
theorem walk_error_iff (ds : List Diagnostic) : ∀ (claimed : List Int) (asked : Nat),
    (∃ failure, (walk oracle rules Token.never document claimed asked ds).ending = .error failure) ↔
      ∃ d ∈ (walk oracle rules Token.never document claimed asked ds).journal.queries,
        Upsets oracle rules document d := by
  induction ds with
  | nil => intro claimed asked; simp [walk]
  | cons d rest ih =>
    intro claimed asked
    have hturn := walk_turn oracle rules Token.never document claimed asked d rest
    generalize walk oracle rules Token.never document claimed asked (d :: rest) = w at hturn ⊢
    -- a finding that was decided on does not upset the rules
    have hcalm : ∀ {decision}, (judge rules document d (oracle.answer d document)).2 = .ok decision →
        ¬ Upsets oracle rules document d := by
      intro decision hj hup
      obtain ⟨failure, hf⟩ := (judge_error_iff oracle rules document d).2 hup
      rw [hj] at hf
      cases hf
    cases hturn with
    | stopped hset => cases hset
    | duplicate hset hd =>
      simp only [Walk.after, Journal.queries_append]
      exact ih claimed asked
    | broken failure hset hd hj =>
      simp only [queries_said, List.mem_singleton, exists_eq_left]
      exact ⟨fun _ => (judge_error_iff oracle rules document d).1 ⟨failure, hj⟩, fun _ => ⟨failure, rfl⟩⟩
    | unfixed detail hset hd hj =>
      simp only [Walk.after, Journal.queries_append, queries_said]
      simp only [event, Journal.queries_cons_outcome, Journal.queries_nil, List.append_nil, List.singleton_append,
        List.mem_cons, exists_eq_or_imp, hcalm hj, false_or]
      exact ih claimed (asked + 1)
    | fixed name edits hset hd hj =>
      simp only [Walk.after, Journal.queries_append, queries_said]
      simp only [event, Journal.queries_cons_outcome, Journal.queries_nil, List.append_nil, List.singleton_append,
        List.mem_cons, exists_eq_or_imp, hcalm hj, false_or]
      exact ih (d.start :: claimed) (asked + 1)

/-- The rules fail while fixes are chosen for findings of a document: the test of findings on one of
them, or the other rules on a finding that the oracle is asked about. -/
inductive Breaks (oracle : Oracle) (rules : Rules) (document : Document) (ds : List Diagnostic) : Prop
  | keep (keep : Diagnostic → Except Failure Bool) (h : rules.keep = some keep) (d : Diagnostic) (hd : d ∈ ds)
      (failure : Failure) (hf : keep d = .error failure)
  | upset (d : Diagnostic) (hd : d ∈ (select oracle rules Token.never 0 document ds).journal.queries)
      (hu : Upsets oracle rules document d)

theorem select_error_iff (oracle : Oracle) (rules : Rules) (document : Document) (ds : List Diagnostic) :
    (∃ failure, (select oracle rules Token.never 0 document ds).ending = .error failure) ↔
      Breaks oracle rules document ds := by
  have hkeep : (∃ failure, rules.keep.elim (.ok ds) (filterE · ds) = .error failure) ↔
      ∃ keep, rules.keep = some keep ∧ ∃ d ∈ ds, ∃ failure, keep d = .error failure := by
    rcases rules.keep with _ | keep
    · simp
    · simp [filterE_error_iff]
  have hbreaks : Breaks oracle rules document ds ↔
      (∃ keep, rules.keep = some keep ∧ ∃ d ∈ ds, ∃ failure, keep d = .error failure) ∨
      ∃ d ∈ (select oracle rules Token.never 0 document ds).journal.queries, Upsets oracle rules document d := by
    constructor
    · rintro (⟨keep, h, d, hd, failure, hf⟩ | ⟨d, hd, hu⟩)
      · exact .inl ⟨keep, h, d, hd, failure, hf⟩
      · exact .inr ⟨d, hd, hu⟩
    · rintro (⟨keep, h, d, hd, failure, hf⟩ | ⟨d, hd, hu⟩)
      · exact .keep keep h d hd failure hf
      · exact .upset d hd hu
  rw [hbreaks, ← hkeep]
  unfold select
  rcases hk : rules.keep.elim (.ok ds) (filterE · ds) with failure | kept
  · simp [hk]
  · by_cases hskip : (rules.keep.isSome && kept.isEmpty) = true
    · simp only [hk, hskip]
      simp
    · simp only [hk, hskip, Bool.false_eq_true, if_false, reduceCtorEq, exists_false, false_or]
      exact walk_error_iff kept [] 0

end Selection

end Amend
