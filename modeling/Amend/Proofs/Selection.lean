/-
What a walk over the findings of a file does. One finding at a time it is stopped, reports a
duplicate, breaks off, or reports the finding as fixed or not; from these steps follow the shape of
its events, that fixed findings have different starts, that the patches are those of the fixed
findings, that each finding gets one final outcome, and that a duplicate stands after the fix that
claimed its start. A walk that ends well is the walk that no token stops, and one that is stopped is
the beginning of it.
-/
import Amend.Selection
import Amend.Proofs.Journal
import Mathlib.Data.List.Nodup

namespace Amend

/-! ## Filters -/

/-- The answer of a test, a failure counting as no. -/
def answersYes {ε : Type} : Except ε Bool → Bool
  | .ok yes => yes
  | .error _ => false

theorem filterE_ok {α ε : Type} {test : α → Except ε Bool} {items kept : List α}
    (h : filterE test items = .ok kept) : kept = items.filter fun a => answersYes (test a) := by
  induction items generalizing kept with
  | nil => cases h; rfl
  | cons a rest ih =>
    unfold filterE at h
    rcases ha : test a with e | yes
    · simp [ha, bind, Except.bind] at h
    rcases hr : filterE test rest with e | others
    · simp [ha, hr, bind, Except.bind] at h
    simp only [ha, hr, bind, Except.bind, pure, Except.pure, Except.ok.injEq] at h
    rw [List.filter_cons, ha, ← ih hr]
    exact h.symm

theorem filterE_elim_ok {α ε : Type} {test : Option (α → Except ε Bool)} {items kept : List α}
    (h : test.elim (.ok items) (filterE · items) = .ok kept) :
    kept = items.filter fun a => test.elim true fun test => answersYes (test a) := by
  rcases test with _ | test
  · cases h; simp
  · exact filterE_ok h

/-- Does a finding pass the test that the rules put to findings? -/
def Rules.passes (rules : Rules) (d : Diagnostic) : Bool :=
  rules.keep.elim true fun keep => answersYes (keep d)

theorem Rules.kept_ok {rules : Rules} {ds kept : List Diagnostic}
    (h : rules.keep.elim (.ok ds) (filterE · ds) = .ok kept) : kept = ds.filter rules.passes :=
  filterE_elim_ok h

namespace Selection

/-! ## One finding -/

variable {oracle : Oracle} {rules : Rules} {token : Token} {document : Document}

/-- The events of a decision are at most the one that several fixes are on offer. -/
theorem judge_events (d : Diagnostic) (answer : Except Failure (List Candidate)) :
    ∀ e ∈ Journal.events (judge rules document d answer).1,
      e.path = some document.path ∧ e.diagnostic = some d ∧ e.outcome = .ambiguous := by
  intro e he
  unfold judge at he
  split at he
  · simp at he
  · split at he
    · simp at he
    · simp at he
    · unfold ambiguity at he
      split at he
      · simp at he
      · simp only [event, Journal.events_cons_note, Journal.events_cons_outcome, Journal.events_nil,
          List.mem_singleton] at he
        subst he
        exact ⟨rfl, rfl, rfl⟩

theorem judge_calls (d : Diagnostic) (answer : Except Failure (List Candidate)) :
    Journal.calls (judge rules document d answer).1 = [] := by
  unfold judge
  split
  · rfl
  · split
    · rfl
    · rfl
    · unfold ambiguity
      split <;> rfl

/-- A fix that is decided on has edits. -/
theorem judge_fixed {d : Diagnostic} {answer : Except Failure (List Candidate)} {name : String} {edits : List Edit}
    (h : (judge rules document d answer).2 = .ok (.fixed name edits)) : edits ≠ [] := by
  unfold judge at h
  split at h
  · cases h
  · split at h
    · cases h
    · cases h
    · simp only at h
      split at h
      · cases h
      · cases h
      · rename_i hne _
        cases h
        exact fun he => hne he

/-- What is said on a finding that the oracle is asked about. -/
def said (oracle : Oracle) (rules : Rules) (document : Document) (d : Diagnostic) : Journal :=
  .query d :: (judge rules document d (oracle.answer d document)).1

/-- A journal that says no more of a finding than that several fixes are on offer. -/
structure Quiet (document : Document) (d : Diagnostic) (journal : Journal) : Prop where
  events : ∀ e ∈ journal.events, e.path = some document.path ∧ e.diagnostic = some d ∧ e.outcome = .ambiguous
  calls : journal.calls = []

theorem quiet_said (oracle : Oracle) (rules : Rules) (document : Document) (d : Diagnostic) :
    Quiet document d (said oracle rules document d) :=
  ⟨judge_events d _, judge_calls d _⟩

theorem quiet_nil (d : Diagnostic) : Quiet document d [] :=
  ⟨by simp, rfl⟩

/-- All that a walk can do with its next finding. -/
inductive Turn (oracle : Oracle) (rules : Rules) (token : Token) (document : Document) (claimed : List Int)
    (asked : Nat) (d : Diagnostic) (rest : List Diagnostic) : Walk → Prop
  | stopped (hset : token.isSet ⟨asked, document.path, some (rest.length + 1)⟩ = true) :
      Turn oracle rules token document claimed asked d rest ⟨[], [], .error Failure.runCancelled⟩
  | duplicate (hset : token.isSet ⟨asked, document.path, some (rest.length + 1)⟩ = false)
      (hd : d.start ∈ claimed) :
      Turn oracle rules token document claimed asked d rest
        ((walk oracle rules token document claimed asked rest).after []
          [event document d .skippedDuplicate s!"start {d.start} already fixed"])
  | broken (failure : Failure) (hset : token.isSet ⟨asked, document.path, some (rest.length + 1)⟩ = false)
      (hd : d.start ∉ claimed)
      (hj : (judge rules document d (oracle.answer d document)).2 = .error failure) :
      Turn oracle rules token document claimed asked d rest ⟨[], said oracle rules document d, .error failure⟩
  | unfixed (detail : String) (hset : token.isSet ⟨asked, document.path, some (rest.length + 1)⟩ = false)
      (hd : d.start ∉ claimed)
      (hj : (judge rules document d (oracle.answer d document)).2 = .ok (.unfixed detail)) :
      Turn oracle rules token document claimed asked d rest
        ((walk oracle rules token document claimed (asked + 1) rest).after []
          (said oracle rules document d ++ [event document d .noFix detail]))
  | fixed (name : String) (edits : List Edit)
      (hset : token.isSet ⟨asked, document.path, some (rest.length + 1)⟩ = false) (hd : d.start ∉ claimed)
      (hj : (judge rules document d (oracle.answer d document)).2 = .ok (.fixed name edits)) :
      Turn oracle rules token document claimed asked d rest
        ((walk oracle rules token document (d.start :: claimed) (asked + 1) rest).after
          (edits.map (Patch.mk d)) (said oracle rules document d ++ [event document d .fixed name]))

theorem walk_turn (oracle : Oracle) (rules : Rules) (token : Token) (document : Document) (claimed : List Int)
    (asked : Nat) (d : Diagnostic) (rest : List Diagnostic) :
    Turn oracle rules token document claimed asked d rest
      (walk oracle rules token document claimed asked (d :: rest)) := by
  rw [walk]
  by_cases hset : token.isSet ⟨asked, document.path, some (rest.length + 1)⟩ = true
  · rw [if_pos hset]; exact .stopped hset
  · rw [if_neg hset]
    rw [Bool.not_eq_true] at hset
    by_cases hd : d.start ∈ claimed
    · rw [if_pos (by simpa using hd)]; exact .duplicate hset hd
    · rw [if_neg (by simpa using hd)]
      rcases hj : (judge rules document d (oracle.answer d document)).2 with failure | (⟨name, edits⟩ | detail)
      · simp only [hj]; exact .broken failure hset hd hj
      · simp only [hj]; exact .fixed name edits hset hd hj
      · simp only [hj]; exact .unfixed detail hset hd hj

/-! ## The events of a walk -/

/-- The findings that events report as fixed, in order. -/
def fixedIn (events : List Event) : List Diagnostic :=
  events.filterMap fun e => if e.outcome = .fixed then e.diagnostic else none

/-- How many of the events have an outcome. -/
def tallyOf (outcome : Outcome) (events : List Event) : Nat :=
  events.countP (·.outcome = outcome)

/-- What holds of the walk over some findings while the starts `claimed` are taken. -/
structure Sound (document : Document) (claimed : List Int) (ds : List Diagnostic) (w : Walk) : Prop where
  shape : ∀ e ∈ w.journal.events, e.path = some document.path ∧ (∃ d ∈ ds, e.diagnostic = some d) ∧
    (e.outcome = .fixed ∨ e.outcome = .skippedDuplicate ∨ e.outcome = .noFix ∨ e.outcome = .ambiguous)
  calls : w.journal.calls = []
  starts : ((fixedIn w.journal.events).map (·.start)).Nodup
  fresh : ∀ d ∈ fixedIn w.journal.events, d.start ∉ claimed
  patches : ∀ d, d ∈ w.patches.map (·.diagnostic) ↔ d ∈ fixedIn w.journal.events
  total : w.ending = .ok () → tallyOf .fixed w.journal.events + tallyOf .skippedDuplicate w.journal.events +
    tallyOf .noFix w.journal.events = ds.length

theorem fixedIn_append (a b : List Event) : fixedIn (a ++ b) = fixedIn a ++ fixedIn b :=
  List.filterMap_append ..

theorem mem_fixedIn {events : List Event} {d : Diagnostic} (h : d ∈ fixedIn events) :
    ∃ e ∈ events, e.diagnostic = some d ∧ e.outcome = .fixed := by
  obtain ⟨e, he, hd⟩ := List.mem_filterMap.1 h
  split at hd
  · exact ⟨e, he, hd, ‹_›⟩
  · cases hd

theorem tallyOf_append (outcome : Outcome) (a b : List Event) :
    tallyOf outcome (a ++ b) = tallyOf outcome a + tallyOf outcome b :=
  List.countP_append ..

theorem Quiet.fixedIn {d : Diagnostic} {journal : Journal} (h : Quiet document d journal) :
    fixedIn journal.events = [] := by
  refine List.filterMap_eq_nil_iff.2 fun e he => ?_
  rw [(h.events e he).2.2]; rfl

theorem Quiet.tallyOf {d : Diagnostic} {journal : Journal} (h : Quiet document d journal) (outcome : Outcome)
    (ho : outcome ≠ .ambiguous) : tallyOf outcome journal.events = 0 := by
  refine List.countP_eq_zero.2 fun e he => ?_
  rw [(h.events e he).2.2]
  simpa using Ne.symm ho

/-- The shape of the events stays when a finding is reported on first. -/
theorem Sound.shape_report {claimed : List Int} {d : Diagnostic} {rest : List Diagnostic} {w : Walk} {journal : Journal}
    (h : Sound document claimed rest w) (hq : Quiet document d journal) (ps : List Patch) (outcome : Outcome)
    (ho : outcome = .fixed ∨ outcome = .skippedDuplicate ∨ outcome = .noFix) (detail : String) :
    ∀ e ∈ (w.after ps (journal ++ [event document d outcome detail])).journal.events,
      e.path = some document.path ∧ (∃ d' ∈ d :: rest, e.diagnostic = some d') ∧
      (e.outcome = .fixed ∨ e.outcome = .skippedDuplicate ∨ e.outcome = .noFix ∨ e.outcome = .ambiguous) := by
  intro e he
  simp only [Walk.after, Journal.events_append, List.mem_append] at he
  rcases he with (he | he) | he
  · obtain ⟨h1, h2, h3⟩ := hq.events e he
    exact ⟨h1, ⟨d, List.mem_cons_self .., h2⟩, by rw [h3]; simp⟩
  · simp only [event, Journal.events_cons_outcome, Journal.events_nil, List.mem_singleton] at he
    subst he
    exact ⟨rfl, ⟨d, List.mem_cons_self .., rfl⟩, by rcases ho with h | h | h <;> simp [h]⟩
  · obtain ⟨h1, ⟨d', hd', h2⟩, h3⟩ := h.shape e he
    exact ⟨h1, ⟨d', List.mem_cons_of_mem _ hd', h2⟩, h3⟩

/-- Reporting a finding as a duplicate or as one without a fix. -/
theorem Sound.pass {claimed : List Int} {d : Diagnostic} {rest : List Diagnostic} {w : Walk} {journal : Journal}
    (h : Sound document claimed rest w) (hq : Quiet document d journal) {outcome : Outcome}
    (ho : outcome = .skippedDuplicate ∨ outcome = .noFix) (detail : String) :
    Sound document claimed (d :: rest) (w.after [] (journal ++ [event document d outcome detail])) := by
  have hfix : fixedIn (w.after [] (journal ++ [event document d outcome detail])).journal.events =
      fixedIn w.journal.events := by
    have hne : outcome ≠ .fixed := by rcases ho with h | h <;> simp [h]
    simp only [Walk.after, Journal.events_append, fixedIn_append, hq.fixedIn]
    simp [event, fixedIn, hne]
  refine ⟨h.shape_report hq [] outcome (.inr ho) detail, ?_, ?_, ?_, ?_, ?_⟩
  · simp [Walk.after, hq.calls, h.calls, event]
  · rw [hfix]; exact h.starts
  · rw [hfix]; exact h.fresh
  · rw [hfix]; exact h.patches
  · intro hend
    have ht := h.total hend
    simp only [Walk.after, Journal.events_append, tallyOf_append, List.length_cons,
      hq.tallyOf .fixed (by decide), hq.tallyOf .noFix (by decide), hq.tallyOf .skippedDuplicate (by decide)]
    rcases ho with rfl | rfl <;> simp [event, tallyOf] at ht ⊢ <;> omega

/-- Reporting a finding as fixed, which claims its start. -/
theorem Sound.fix {claimed : List Int} {d : Diagnostic} {rest : List Diagnostic} {w : Walk} {journal : Journal}
    (h : Sound document (d.start :: claimed) rest w) (hq : Quiet document d journal) (hd : d.start ∉ claimed)
    (name : String) {edits : List Edit} (hne : edits ≠ []) :
    Sound document claimed (d :: rest)
      (w.after (edits.map (Patch.mk d)) (journal ++ [event document d .fixed name])) := by
  have hfix : fixedIn (w.after (edits.map (Patch.mk d)) (journal ++ [event document d .fixed name])).journal.events =
      d :: fixedIn w.journal.events := by
    simp only [Walk.after, Journal.events_append, fixedIn_append, hq.fixedIn]
    simp [event, fixedIn]
  refine ⟨h.shape_report hq _ .fixed (.inl rfl) name, ?_, ?_, ?_, ?_, ?_⟩
  · simp [Walk.after, hq.calls, h.calls, event]
  · rw [hfix, List.map_cons, List.nodup_cons]
    -- the rest was walked with this start claimed, so it has no fix there
    refine ⟨fun hm => ?_, h.starts⟩
    obtain ⟨d', hd', he⟩ := List.mem_map.1 hm
    exact h.fresh d' hd' (he ▸ List.mem_cons_self ..)
  · rw [hfix]
    intro d' hd'
    rcases List.mem_cons.1 hd' with rfl | hd'
    · exact hd
    · exact fun hc => h.fresh d' hd' (List.mem_cons_of_mem _ hc)
  · intro d'
    obtain ⟨edit, edits', rfl⟩ := List.exists_cons_of_ne_nil hne
    rw [hfix, List.mem_cons, ← h.patches d']
    simp only [Walk.after, List.map_append, List.map_map, List.mem_append]
    simp only [List.mem_map, Function.comp]
    constructor
    · rintro (⟨_, _, rfl⟩ | hm)
      · exact .inl rfl
      · exact .inr hm
    · rintro (rfl | hm)
      · exact .inl ⟨edit, List.mem_cons_self .., rfl⟩
      · exact .inr hm
  · intro hend
    have ht := h.total hend
    simp only [Walk.after, Journal.events_append, tallyOf_append, List.length_cons,
      hq.tallyOf .fixed (by decide), hq.tallyOf .noFix (by decide), hq.tallyOf .skippedDuplicate (by decide)]
    simp [event, tallyOf] at ht ⊢
    omega

/-- Every walk keeps to the rules above, whether it ends well or not. -/
theorem sound_walk (ds : List Diagnostic) : ∀ (claimed : List Int) (asked : Nat),
    Sound document claimed ds (walk oracle rules token document claimed asked ds) := by
  -- for all claimed starts at once, since a fix claims one more
  induction ds with
  | nil =>
    intro claimed asked
    exact ⟨by simp [walk], rfl, List.nodup_nil, by simp [walk, fixedIn], by simp [walk, fixedIn], fun _ => rfl⟩
  | cons d rest ih =>
    intro claimed asked
    have hturn := walk_turn oracle rules token document claimed asked d rest
    generalize walk oracle rules token document claimed asked (d :: rest) = w at hturn ⊢
    cases hturn with
    | stopped hset =>
      exact ⟨by simp, rfl, List.nodup_nil, by simp [fixedIn], by simp [fixedIn], fun h => by cases h⟩
    | duplicate hset hd =>
      exact (ih claimed asked).pass (quiet_nil d) (.inl rfl) _
    | broken failure hset hd hj =>
      have hq := quiet_said oracle rules document d
      refine ⟨fun e he => ?_, hq.calls, ?_, ?_, ?_, fun h => by cases h⟩
      · obtain ⟨h1, h2, h3⟩ := hq.events e he
        exact ⟨h1, ⟨d, List.mem_cons_self .., h2⟩, by rw [h3]; simp⟩
      all_goals simp [hq.fixedIn]
    | unfixed detail hset hd hj =>
      exact (ih claimed (asked + 1)).pass (quiet_said oracle rules document d) (.inr rfl) detail
    | fixed name edits hset hd hj =>
      exact (ih (d.start :: claimed) (asked + 1)).fix (quiet_said oracle rules document d) hd name (judge_fixed hj)

/-! ## Selections -/

/-- A selection as the walk that it is: one that keeps no finding walks over none. -/
def toWalk (selection : Selection) : Walk :=
  ⟨selection.patches.patches, selection.journal, selection.ending⟩

theorem sound_select (oracle : Oracle) (rules : Rules) (token : Token) (asked : Nat) (document : Document)
    (ds : List Diagnostic) :
    Sound document [] (ds.filter rules.passes) (select oracle rules token asked document ds).toWalk := by
  unfold select
  split
  · exact ⟨by simp [toWalk], rfl, List.nodup_nil, by simp [toWalk, fixedIn], by simp [toWalk, fixedIn],
      fun h => by cases h⟩
  · rename_i kept hk
    have hkept := Rules.kept_ok hk
    split
    · rename_i he
      simp only [Bool.and_eq_true, List.isEmpty_iff] at he
      rw [← hkept, he.2]
      exact ⟨by simp [toWalk], rfl, List.nodup_nil, by simp [toWalk, fixedIn], by simp [toWalk, fixedIn],
        fun _ => rfl⟩
    · rw [← hkept]
      exact sound_walk kept [] asked

/-! ## Duplicates -/

/-- Each finding that events report as a duplicate starts where one of `claimed` does, or where an
earlier finding does that they report as fixed. -/
def Duplicated (claimed : List Int) (ds : List Diagnostic) (events : List Event) : Prop :=
  ∀ e ∈ events, e.outcome = .skippedDuplicate → ∃ dup ∈ ds, e.diagnostic = some dup ∧
    (dup.start ∈ claimed ∨ ∃ d ∈ fixedIn events, [d, dup].Sublist ds ∧ d.start = dup.start)

section Duplicated

variable {claimed : List Int} {d : Diagnostic} {rest : List Diagnostic} {before events : List Event}

theorem fixedIn_after {x : Diagnostic} (h : x ∈ fixedIn events) : x ∈ fixedIn (before ++ events) := by
  rw [fixedIn_append]
  exact List.mem_append_right _ h

/-- A finding that is no fix claims nothing, and is a duplicate only at a start that is claimed. -/
theorem Duplicated.pass (h : Duplicated claimed rest events)
    (hbefore : ∀ e ∈ before, e.outcome = .skippedDuplicate → e.diagnostic = some d ∧ d.start ∈ claimed) :
    Duplicated claimed (d :: rest) (before ++ events) := by
  intro e he ho
  rcases List.mem_append.1 he with he | he
  · obtain ⟨hd, hc⟩ := hbefore e he ho
    exact ⟨d, List.mem_cons_self .., hd, .inl hc⟩
  · obtain ⟨dup, hdup, hdiag, hor⟩ := h e he ho
    refine ⟨dup, List.mem_cons_of_mem _ hdup, hdiag, hor.imp_right ?_⟩
    rintro ⟨x, hx, hsub, hstart⟩
    exact ⟨x, fixedIn_after hx, hsub.cons _, hstart⟩

/-- A fix stands before all findings that its start makes duplicates. -/
theorem Duplicated.fix (h : Duplicated (d.start :: claimed) rest events)
    (hbefore : ∀ e ∈ before, e.outcome ≠ .skippedDuplicate) (hd : d ∈ fixedIn before) :
    Duplicated claimed (d :: rest) (before ++ events) := by
  intro e he ho
  rcases List.mem_append.1 he with he | he
  · exact absurd ho (hbefore e he)
  · obtain ⟨dup, hdup, hdiag, hor⟩ := h e he ho
    refine ⟨dup, List.mem_cons_of_mem _ hdup, hdiag, ?_⟩
    rcases hor with hc | ⟨x, hx, hsub, hstart⟩
    · rcases List.mem_cons.1 hc with hstart | hc
      · refine .inr ⟨d, ?_, (List.singleton_sublist.2 hdup).cons_cons d, hstart.symm⟩
        rw [fixedIn_append]
        exact List.mem_append_left _ hd
      · exact .inl hc
    · exact .inr ⟨x, fixedIn_after hx, hsub.cons _, hstart⟩

end Duplicated

theorem outcome_of_mem_report {d : Diagnostic} {outcome : Outcome} {detail : String} (ho : outcome ≠ .skippedDuplicate) :
    ∀ e ∈ Journal.events (said oracle rules document d ++ [event document d outcome detail]),
      e.outcome ≠ .skippedDuplicate := by
  intro e he
  rw [Journal.events_append] at he
  rcases List.mem_append.1 he with he | he
  · rw [((quiet_said oracle rules document d).events e he).2.2]
    decide
  · rw [List.mem_singleton.1 he]
    exact ho

theorem events_after (w : Walk) (patches : List Patch) (journal : Journal) :
    (w.after patches journal).journal.events = journal.events ++ w.journal.events :=
  Journal.events_append ..

theorem walk_duplicated (ds : List Diagnostic) : ∀ (claimed : List Int) (asked : Nat),
    Duplicated claimed ds (walk oracle rules token document claimed asked ds).journal.events := by
  induction ds with
  | nil => intro _ _ e he; cases he
  | cons d rest ih =>
    intro claimed asked
    have hturn := walk_turn oracle rules token document claimed asked d rest
    generalize walk oracle rules token document claimed asked (d :: rest) = w at hturn ⊢
    cases hturn with
    | stopped hset => intro e he; cases he
    | duplicate hset hd =>
      rw [events_after]
      refine Duplicated.pass (ih claimed asked) fun e he _ => ?_
      rw [List.mem_singleton.1 he]
      exact ⟨rfl, hd⟩
    | broken failure hset hd hj =>
      intro e he ho
      rw [((quiet_said oracle rules document d).events e he).2.2] at ho
      cases ho
    | unfixed detail hset hd hj =>
      rw [events_after]
      refine Duplicated.pass (ih claimed (asked + 1)) fun e he ho => ?_
      exact absurd ho (outcome_of_mem_report (by decide) e he)
    | fixed name edits hset hd hj =>
      rw [events_after]
      refine Duplicated.fix (ih (d.start :: claimed) (asked + 1)) (outcome_of_mem_report (by decide)) ?_
      rw [Journal.events_append, fixedIn_append]
      exact List.mem_append_right _ (by simp [event, fixedIn])

/-- A finding is a duplicate of an earlier one that is reported as fixed. -/
theorem select_duplicated (oracle : Oracle) (rules : Rules) (token : Token) (asked : Nat) (document : Document)
    (ds : List Diagnostic) : Duplicated [] ds (select oracle rules token asked document ds).journal.events := by
  unfold select
  split
  · intro e he; cases he
  · rename_i kept hk
    split
    · intro e he; cases he
    · have hsub : kept.Sublist ds := by
        rw [Rules.kept_ok hk]
        exact List.filter_sublist
      intro e he ho
      obtain ⟨dup, hdup, hdiag, hor⟩ := walk_duplicated kept [] asked e he ho
      refine ⟨dup, hsub.subset hdup, hdiag, hor.imp_right ?_⟩
      rintro ⟨d, hd, hpair, hstart⟩
      exact ⟨d, hd, hpair.trans hsub, hstart⟩

/-! ## Where patches come from -/

/-- Where nothing is reworked, the edits of a fix are those of one that the oracle offered. -/
theorem judge_offered (hrework : rules.rework = none) {d : Diagnostic} {answer : Except Failure (List Candidate)}
    {name : String} {edits : List Edit} (h : (judge rules document d answer).2 = .ok (.fixed name edits)) :
    ∃ candidates, answer = .ok candidates ∧ ∃ c ∈ candidates, c.edits = edits := by
  unfold judge at h
  split at h
  · cases h
  · rename_i candidates
    split at h
    · cases h
    · cases h
    · rename_i chosen more haccept
      have hoffered : chosen ∈ candidates := by
        rcases hacc : rules.accept with _ | accept
        · rw [hacc] at haccept
          cases haccept
          exact List.mem_cons_self ..
        · rw [hacc] at haccept
          have hmem : chosen ∈ candidates.filter fun c => answersYes (accept c) :=
            filterE_ok haccept ▸ List.mem_cons_self ..
          exact (List.mem_filter.1 hmem).1
      rw [hrework] at h
      simp only [Option.elim_none] at h
      split at h
      · cases h
      · cases h
      · rename_i hchosen
        cases h
        exact ⟨candidates, rfl, chosen, hoffered, Except.ok.inj hchosen⟩

/-- A patch is an edit of a fix that the oracle offered for a finding of the file. -/
structure Offered (oracle : Oracle) (document : Document) (ds : List Diagnostic) (patch : Patch) : Prop where
  finding : patch.diagnostic ∈ ds
  offer : ∃ candidates, oracle.answer patch.diagnostic document = .ok candidates ∧
    ∃ c ∈ candidates, patch.edit ∈ c.edits

theorem walk_offered (hrework : rules.rework = none) (ds : List Diagnostic) : ∀ (claimed : List Int) (asked : Nat),
    ∀ patch ∈ (walk oracle rules token document claimed asked ds).patches, Offered oracle document ds patch := by
  induction ds with
  | nil => intro _ _ patch h; cases h
  | cons d rest ih =>
    intro claimed asked patch hpatch
    have hlater : Offered oracle document rest patch → Offered oracle document (d :: rest) patch :=
      fun h => ⟨List.mem_cons_of_mem _ h.finding, h.offer⟩
    have hturn := walk_turn oracle rules token document claimed asked d rest
    generalize walk oracle rules token document claimed asked (d :: rest) = w at hturn hpatch
    cases hturn with
    | stopped hset => cases hpatch
    | duplicate hset hd => exact hlater (ih claimed asked patch hpatch)
    | broken failure hset hd hj => cases hpatch
    | unfixed detail hset hd hj => exact hlater (ih claimed (asked + 1) patch hpatch)
    | fixed name edits hset hd hj =>
      rcases List.mem_append.1 hpatch with hpatch | hpatch
      · obtain ⟨edit, hedit, rfl⟩ := List.mem_map.1 hpatch
        obtain ⟨candidates, hanswer, c, hc, rfl⟩ := judge_offered hrework hj
        exact ⟨List.mem_cons_self .., candidates, hanswer, c, hc, hedit⟩
      · exact hlater (ih (d.start :: claimed) (asked + 1) patch hpatch)

theorem select_offered (hrework : rules.rework = none) (asked : Nat) (ds : List Diagnostic) :
    ∀ patch ∈ (select oracle rules token asked document ds).patches.patches, Offered oracle document ds patch := by
  unfold select
  split
  · intro patch h; cases h
  · rename_i kept hk
    split
    · intro patch h; cases h
    · intro patch hpatch
      obtain ⟨hfinding, hoffer⟩ := walk_offered hrework kept [] asked patch hpatch
      rw [Rules.kept_ok hk] at hfinding
      exact ⟨(List.mem_filter.1 hfinding).1, hoffer⟩

/-! ## Tokens -/

@[simp] theorem never_isSet (look : Look) : Token.never.isSet look = false := rfl

/-- Without a token it does not matter how many queries were put before. -/
theorem walk_never_asked (ds : List Diagnostic) : ∀ (claimed : List Int) (asked asked' : Nat),
    walk oracle rules Token.never document claimed asked ds =
      walk oracle rules Token.never document claimed asked' ds := by
  induction ds with
  | nil => intro _ _ _; rfl
  | cons d rest ih =>
    intro claimed asked asked'
    simp only [walk, never_isSet]
    rw [ih claimed asked asked', ih claimed (asked + 1) (asked' + 1),
      ih (d.start :: claimed) (asked + 1) (asked' + 1)]

/-- A walk that ends well is the walk that no token stops. -/
theorem walk_eq_never (ds : List Diagnostic) : ∀ (claimed : List Int) (asked : Nat),
    (walk oracle rules token document claimed asked ds).ending = .ok () →
    walk oracle rules token document claimed asked ds = walk oracle rules Token.never document claimed asked ds := by
  induction ds with
  | nil => intro _ _ _; rfl
  | cons d rest ih =>
    intro claimed asked h
    have hturn := walk_turn oracle rules token document claimed asked d rest
    generalize walk oracle rules token document claimed asked (d :: rest) = w at hturn h ⊢
    cases hturn with
    | stopped hset => cases h
    | duplicate hset hd => simp [walk, hd, ← ih claimed asked h]
    | broken failure hset hd hj => cases h
    | unfixed detail hset hd hj => simp [walk, hd, hj, said, ← ih claimed (asked + 1) h]
    | fixed name edits hset hd hj => simp [walk, hd, hj, said, ← ih (d.start :: claimed) (asked + 1) h]

theorem select_never_asked (asked : Nat) (ds : List Diagnostic) :
    select oracle rules Token.never asked document ds = select oracle rules Token.never 0 document ds := by
  unfold select
  split
  · rfl
  · rename_i kept _
    rw [walk_never_asked kept [] asked 0]

/-- A selection that ends well is the one that no token stops. -/
theorem select_eq_never {asked : Nat} {ds : List Diagnostic}
    (h : (select oracle rules token asked document ds).ending = .ok ()) :
    select oracle rules token asked document ds = select oracle rules Token.never 0 document ds := by
  rw [← select_never_asked asked]
  unfold select at h ⊢
  split
  · rfl
  · rename_i kept hk
    simp only [hk] at h
    split
    · rfl
    · rename_i he
      rw [if_neg he] at h
      rw [walk_eq_never kept [] asked h]

/-! ## Walks that are stopped -/

theorem judge_queries (d : Diagnostic) (answer : Except Failure (List Candidate)) :
    Journal.queries (judge rules document d answer).1 = [] := by
  unfold judge
  split
  · rfl
  · split
    · rfl
    · rfl
    · unfold ambiguity
      split <;> rfl

theorem queries_said (oracle : Oracle) (rules : Rules) (document : Document) (d : Diagnostic) :
    Journal.queries (said oracle rules document d) = [d] := by
  unfold said
  rw [Journal.queries_cons_query, judge_queries]

/-- What is said by something that the token stops: it begins what would have been said otherwise, and
it ends at a look at the set token, `asked` queries having been put before. -/
structure Stopped (token : Token) (asked : Nat) (said full : Journal) : Prop where
  begins : said <+: full
  look : ∃ look, token.isSet look = true ∧ look.asked = asked + said.queries.length

theorem Stopped.after {asked : Nat} {journal full : Journal} (before : Journal)
    (h : Stopped token (asked + before.queries.length) journal full) :
    Stopped token asked (before ++ journal) (before ++ full) := by
  obtain ⟨look, hset, hlook⟩ := h.look
  refine ⟨(List.prefix_append_right_inj before).2 h.begins, look, hset, ?_⟩
  rw [hlook, Journal.queries_append, List.length_append, Nat.add_assoc]

theorem Stopped.extend {asked : Nat} {journal full longer : Journal} (h : Stopped token asked journal full)
    (hp : full <+: longer) : Stopped token asked journal longer :=
  ⟨h.begins.trans hp, h.look⟩

section Never

variable {claimed : List Int} {asked : Nat} {d : Diagnostic} {rest : List Diagnostic}

theorem never_duplicate (hd : d.start ∈ claimed) :
    walk oracle rules Token.never document claimed asked (d :: rest) =
      (walk oracle rules Token.never document claimed asked rest).after []
        [event document d .skippedDuplicate s!"start {d.start} already fixed"] := by
  simp [walk, hd]

theorem never_broken {failure : Failure} (hd : d.start ∉ claimed)
    (hj : (judge rules document d (oracle.answer d document)).2 = .error failure) :
    walk oracle rules Token.never document claimed asked (d :: rest) =
      ⟨[], said oracle rules document d, .error failure⟩ := by
  simp [walk, hd, hj, said]

theorem never_unfixed {detail : String} (hd : d.start ∉ claimed)
    (hj : (judge rules document d (oracle.answer d document)).2 = .ok (.unfixed detail)) :
    walk oracle rules Token.never document claimed asked (d :: rest) =
      (walk oracle rules Token.never document claimed (asked + 1) rest).after []
        (said oracle rules document d ++ [event document d .noFix detail]) := by
  simp [walk, hd, hj, said]

theorem never_fixed {name : String} {edits : List Edit} (hd : d.start ∉ claimed)
    (hj : (judge rules document d (oracle.answer d document)).2 = .ok (.fixed name edits)) :
    walk oracle rules Token.never document claimed asked (d :: rest) =
      (walk oracle rules Token.never document (d.start :: claimed) (asked + 1) rest).after
        (edits.map (Patch.mk d)) (said oracle rules document d ++ [event document d .fixed name]) := by
  simp [walk, hd, hj, said]

end Never

/-- A report that follows a query counts as one. -/
theorem Stopped.report {asked : Nat} {journal full : Journal} (h : Stopped token (asked + 1) journal full)
    (oracle : Oracle) (rules : Rules) (document : Document) (d : Diagnostic) (outcome : Outcome) (detail : String) :
    Stopped token asked (said oracle rules document d ++ [event document d outcome detail] ++ journal)
      (said oracle rules document d ++ [event document d outcome detail] ++ full) := by
  refine Stopped.after _ ?_
  rw [Journal.queries_append, queries_said]
  exact h

/-- A walk is the one that no token stops, or is stopped in the course of it. -/
theorem walk_cut (ds : List Diagnostic) : ∀ (claimed : List Int) (asked : Nat),
    walk oracle rules token document claimed asked ds = walk oracle rules Token.never document claimed asked ds ∨
    (walk oracle rules token document claimed asked ds).ending = .error Failure.runCancelled ∧
      Stopped token asked (walk oracle rules token document claimed asked ds).journal
        (walk oracle rules Token.never document claimed asked ds).journal := by
  induction ds with
  | nil => intro _ _; exact .inl rfl
  | cons d rest ih =>
    intro claimed asked
    have hturn := walk_turn oracle rules token document claimed asked d rest
    generalize walk oracle rules token document claimed asked (d :: rest) = w at hturn ⊢
    cases hturn with
    | stopped hset => exact .inr ⟨rfl, List.nil_prefix, _, hset, rfl⟩
    | duplicate hset hd =>
      rw [never_duplicate hd]
      rcases ih claimed asked with heq | ⟨hend, hstop⟩
      · exact .inl (by rw [heq])
      · exact .inr ⟨hend, hstop.after [_]⟩
    | broken failure hset hd hj => exact .inl (never_broken hd hj).symm
    | unfixed detail hset hd hj =>
      rw [never_unfixed hd hj]
      rcases ih claimed (asked + 1) with heq | ⟨hend, hstop⟩
      · exact .inl (by rw [heq])
      · exact .inr ⟨hend, hstop.report ..⟩
    | fixed name edits hset hd hj =>
      rw [never_fixed hd hj]
      rcases ih (d.start :: claimed) (asked + 1) with heq | ⟨hend, hstop⟩
      · exact .inl (by rw [heq])
      · exact .inr ⟨hend, hstop.report ..⟩

/-- A selection is the one that no token stops, or is stopped in the course of it. -/
theorem select_cut (oracle : Oracle) (rules : Rules) (token : Token) (asked : Nat) (document : Document)
    (ds : List Diagnostic) :
    select oracle rules token asked document ds = select oracle rules Token.never asked document ds ∨
    (select oracle rules token asked document ds).ending = .error Failure.runCancelled ∧
      Stopped token asked (select oracle rules token asked document ds).journal
        (select oracle rules Token.never asked document ds).journal := by
  unfold select
  split
  · exact .inl rfl
  · split
    · exact .inl rfl
    · rename_i kept _ _
      rcases @walk_cut oracle rules token document kept [] asked with heq | hstop
      · exact .inl (by rw [heq])
      · exact .inr hstop

/-- A token that is set after `n` queries lets a walk put no more of them. -/
theorem walk_queries_le {n : Nat} (ds : List Diagnostic) : ∀ (claimed : List Int) (asked : Nat), asked ≤ n →
    asked + (walk oracle rules (Token.afterQueries n) document claimed asked ds).journal.queries.length ≤ n := by
  induction ds with
  | nil => intro _ _ h; exact h
  | cons d rest ih =>
    intro claimed asked hn
    have hturn := walk_turn oracle rules (Token.afterQueries n) document claimed asked d rest
    have hlt : (Token.afterQueries n).isSet ⟨asked, document.path, some (rest.length + 1)⟩ = false → asked + 1 ≤ n := by
      intro hset
      have hless : ¬ n ≤ asked := of_decide_eq_false hset
      omega
    generalize walk oracle rules (Token.afterQueries n) document claimed asked (d :: rest) = w at hturn ⊢
    cases hturn with
    | stopped hset => exact hn
    | duplicate hset hd => exact ih claimed asked hn
    | broken failure hset hd hj =>
      rw [queries_said]
      exact hlt hset
    | unfixed detail hset hd hj =>
      have := ih claimed (asked + 1) (hlt hset)
      simp only [Walk.after, Journal.queries_append, queries_said, event, Journal.queries_cons_outcome,
        Journal.queries_nil, List.length_append, List.length_singleton, List.length_nil]
      omega
    | fixed name edits hset hd hj =>
      have := ih (d.start :: claimed) (asked + 1) (hlt hset)
      simp only [Walk.after, Journal.queries_append, queries_said, event, Journal.queries_cons_outcome,
        Journal.queries_nil, List.length_append, List.length_singleton, List.length_nil]
      omega

theorem select_queries_le {n asked : Nat} (hn : asked ≤ n) (ds : List Diagnostic) :
    asked + (select oracle rules (Token.afterQueries n) asked document ds).journal.queries.length ≤ n := by
  unfold select
  split
  · exact hn
  · split
    · exact hn
    · exact walk_queries_le _ _ _ hn

end Selection

/-! ## What a selection fails with -/

theorem filterE_error {α ε : Type} {test : α → Except ε Bool} {items : List α} {e : ε}
    (h : filterE test items = .error e) : ∃ a ∈ items, test a = .error e := by
  induction items with
  | nil => cases h
  | cons a rest ih =>
    unfold filterE at h
    rcases ha : test a with e' | yes
    · simp only [ha, bind, Except.bind, Except.error.injEq] at h
      exact ⟨a, List.mem_cons_self .., h ▸ ha⟩
    · rcases hr : filterE test rest with e' | others
      · simp only [ha, hr, bind, Except.bind, Except.error.injEq] at h
        obtain ⟨b, hb, hfail⟩ := ih (h ▸ hr)
        exact ⟨b, List.mem_cons_of_mem _ hb, hfail⟩
      · simp [ha, hr, bind, Except.bind, pure, Except.pure] at h

/-- The rules fail in this way on a finding. -/
inductive Rules.Raises (rules : Rules) (document : Document) (d : Diagnostic) (failure : Failure) : Prop
  | keep (keep : Diagnostic → Except Failure Bool) (h : rules.keep = some keep) (hf : keep d = .error failure)
  | accept (accept : Candidate → Except Failure Bool) (h : rules.accept = some accept) (c : Candidate)
      (hf : accept c = .error failure)
  | rework (rework : List Edit → Document → Diagnostic → Except Failure (List Edit)) (h : rules.rework = some rework)
      (edits : List Edit) (hf : rework edits document d = .error failure)

/-- The rules may fail, but do not ask the run to stop. -/
structure Rules.Uncancelled (rules : Rules) : Prop where
  keep : ∀ keep, rules.keep = some keep → ∀ d failure, keep d = .error failure → failure.isCancelled = false
  accept : ∀ accept, rules.accept = some accept → ∀ c failure, accept c = .error failure → failure.isCancelled = false
  rework : ∀ rework, rules.rework = some rework → ∀ edits document d failure,
    rework edits document d = .error failure → failure.isCancelled = false

theorem Rules.Uncancelled.of_raises {rules : Rules} (hr : rules.Uncancelled) {document : Document} {d : Diagnostic}
    {failure : Failure} (h : rules.Raises document d failure) : failure.isCancelled = false := by
  cases h with
  | keep keep h hf => exact hr.keep keep h d failure hf
  | accept accept h c hf => exact hr.accept accept h c failure hf
  | rework rework h edits hf => exact hr.rework rework h edits document d failure hf

namespace Selection

variable {oracle : Oracle} {rules : Rules} {token : Token} {document : Document}

/-- A decision fails as the rules do, and never as a query does. -/
theorem judge_raises {d : Diagnostic} {answer : Except Failure (List Candidate)} {failure : Failure}
    (h : (judge rules document d answer).2 = .error failure) : rules.Raises document d failure := by
  unfold judge at h
  split at h
  · cases h
  · split at h
    · rename_i candidates failure' ha
      cases h
      rcases hacc : rules.accept with _ | accept
      · rw [hacc] at ha; cases ha
      · rw [hacc] at ha
        obtain ⟨c, -, hc⟩ := filterE_error ha
        exact .accept accept hacc c hc
    · cases h
    · rename_i chosen more _
      simp only at h
      split at h
      · rename_i failure' hw
        cases h
        rcases hrew : rules.rework with _ | rework
        · rw [hrew] at hw; cases hw
        · rw [hrew] at hw
          exact .rework rework hrew chosen.edits hw
      · cases h
      · cases h

/-- A selection is stopped by its token, or by the rules on one of the findings. -/
inductive EndsBy (rules : Rules) (token : Token) (document : Document) (ds : List Diagnostic) : Failure → Prop
  | stop (look : Look) (hset : token.isSet look = true) : EndsBy rules token document ds Failure.runCancelled
  | raise (failure : Failure) (d : Diagnostic) (hd : d ∈ ds) (h : rules.Raises document d failure) :
      EndsBy rules token document ds failure

theorem EndsBy.mono {ds ds' : List Diagnostic} (hsub : ds ⊆ ds') {failure : Failure}
    (h : EndsBy rules token document ds failure) : EndsBy rules token document ds' failure := by
  cases h with
  | stop look hset => exact .stop look hset
  | raise _ d hd h => exact .raise _ d (hsub hd) h

theorem walk_endsBy (ds : List Diagnostic) {failure : Failure} : ∀ (claimed : List Int) (asked : Nat),
    (walk oracle rules token document claimed asked ds).ending = .error failure →
      EndsBy rules token document ds failure := by
  induction ds with
  | nil => intro _ _ h; cases h
  | cons d rest ih =>
    intro claimed asked h
    have hturn := walk_turn oracle rules token document claimed asked d rest
    generalize walk oracle rules token document claimed asked (d :: rest) = w at hturn h
    cases hturn with
    | stopped hset => cases h; exact .stop _ hset
    | duplicate => exact (ih _ _ h).mono (List.subset_cons_self ..)
    | broken failure' hset hd hj => cases h; exact .raise _ d (List.mem_cons_self ..) (judge_raises hj)
    | unfixed => exact (ih _ _ h).mono (List.subset_cons_self ..)
    | fixed => exact (ih _ _ h).mono (List.subset_cons_self ..)

theorem select_endsBy {asked : Nat} {ds : List Diagnostic} {failure : Failure}
    (h : (select oracle rules token asked document ds).ending = .error failure) :
    EndsBy rules token document ds failure := by
  unfold select at h
  split at h
  · rename_i failure' hk
    cases h
    rcases hkeep : rules.keep with _ | keep
    · rw [hkeep] at hk; cases hk
    · rw [hkeep] at hk
      obtain ⟨d, hd, hf⟩ := filterE_error hk
      exact .raise _ d hd (.keep keep hkeep hf)
  · rename_i kept hk
    split at h
    · cases h
    · rw [Rules.kept_ok hk] at h
      exact (walk_endsBy _ _ _ h).mono (List.filter_subset_self ..)

/-- A selection that nobody stops does not end in a cancellation. -/
theorem ending_uncancelled (hr : rules.Uncancelled) {asked : Nat} {ds : List Diagnostic} {failure : Failure}
    (h : (select oracle rules Token.never asked document ds).ending = .error failure) : failure.isCancelled = false := by
  cases select_endsBy h with
  | stop look hset => cases hset
  | raise _ d hd h => exact hr.of_raises h

end Selection

end Amend
