/-
Queries that fail. A selection goes on after a failed query just as if the oracle had offered no fix: it chooses the
same patches, puts the same queries, passes the same verdicts and ends alike, and only says more. So no failure of
the oracle ends a selection; those that do come from the rules or from the token.
-/
import Amend.Proofs.Selection

namespace Amend

/-- The oracle that offers no fix where this one fails. -/
def Oracle.hushed (oracle : Oracle) : Oracle :=
  { oracle with answer := fun d document => .ok ((oracle.answer d document).toOption.getD []) }

namespace Selection

/-! ## What is said of failed queries -/

/-- Two journals that differ only in what is said of queries that fail: in the first one a warning is logged and
the reason is given for which there is no fix. -/
inductive Hushes (oracle : Oracle) (document : Document) : Journal → Journal → Prop
  | nil : Hushes oracle document [] []
  | same {journal journal' : Journal} (entry : Entry) (h : Hushes oracle document journal journal') :
      Hushes oracle document (entry :: journal) (entry :: journal')
  | failed {journal journal' : Journal} (d : Diagnostic) (failure : Failure)
      (hanswer : oracle.answer d document = .error failure) (h : Hushes oracle document journal journal') :
      Hushes oracle document
        (.query d :: .note .warning .selection s!"Fix lookup failed for {d.describe}: {failure.reason}" ::
          event document d .noFix s!"oracle failure: {failure.reason}" :: journal)
        (.query d :: event document d .noFix "" :: journal')

namespace Hushes

variable {oracle : Oracle} {document : Document} {journal journal' : Journal}

theorem prepend (before : Journal) (h : Hushes oracle document journal journal') :
    Hushes oracle document (before ++ journal) (before ++ journal') := by
  induction before with
  | nil => exact h
  | cons entry rest ih => exact .same entry ih

theorem refl (journal : Journal) : Hushes oracle document journal journal := by
  simpa using (nil : Hushes oracle document [] []).prepend journal

theorem queries (h : Hushes oracle document journal journal') : journal.queries = journal'.queries := by
  induction h with
  | nil => rfl
  | same entry _ ih => cases entry <;> simp [ih]
  | failed d failure _ _ ih => simp [event, ih]

end Hushes

/-- What an event says without its detail. -/
def headline (e : Event) : Option String × Option Diagnostic × Outcome :=
  (e.path, e.diagnostic, e.outcome)

theorem Hushes.headlines {oracle : Oracle} {document : Document} {journal journal' : Journal}
    (h : Hushes oracle document journal journal') : journal.events.map headline = journal'.events.map headline := by
  induction h with
  | nil => rfl
  | same entry _ ih => cases entry <;> simp [ih]
  | failed d failure _ _ ih => simp [event, headline, ih]

/-! ## Walks -/

/-- A walk does what another one does, and says more of queries that fail. -/
structure Hushed (oracle : Oracle) (document : Document) (w w' : Walk) : Prop where
  patches : w.patches = w'.patches
  journal : Hushes oracle document w.journal w'.journal
  ending : w.ending = w'.ending

variable {oracle : Oracle} {rules : Rules} {token : Token} {document : Document} {w w' : Walk}

theorem Hushed.refl (w : Walk) : Hushed oracle document w w :=
  ⟨rfl, .refl w.journal, rfl⟩

theorem Hushed.after (h : Hushed oracle document w w') (patches : List Patch) (journal : Journal) :
    Hushed oracle document (w.after patches journal) (w'.after patches journal) :=
  ⟨congrArg (patches ++ ·) h.patches, h.journal.prepend journal, h.ending⟩

/-- Without any fix on offer there is nothing to decide on. -/
theorem judge_nil (rules : Rules) (document : Document) (d : Diagnostic) :
    judge rules document d (.ok []) = ([], .ok (.unfixed "")) := by
  unfold judge
  cases rules.accept <;> rfl

theorem walk_hushed (ds : List Diagnostic) : ∀ (claimed : List Int) (asked : Nat),
    Hushed oracle document (walk oracle rules token document claimed asked ds)
      (walk oracle.hushed rules token document claimed asked ds) := by
  induction ds with
  | nil => intro claimed asked; exact .refl _
  | cons d rest ih =>
    intro claimed asked
    rw [walk, walk]
    split
    · exact .refl _
    split
    · exact (ih claimed asked).after ..
    rcases hanswer : oracle.answer d document with failure | candidates
    · -- the query fails, and there is no fix either way
      have hother : oracle.hushed.answer d document = .ok [] := by
        unfold Oracle.hushed
        simp only [hanswer]
        rfl
      rw [hother, judge_nil]
      have hrest := ih claimed (asked + 1)
      exact ⟨hrest.patches, .failed d failure hanswer hrest.journal, hrest.ending⟩
    · have hother : oracle.hushed.answer d document = .ok candidates := by
        unfold Oracle.hushed
        simp only [hanswer]
        rfl
      rw [hother]
      simp only
      split
      · exact .refl _
      · exact (ih claimed (asked + 1)).after ..
      · exact (ih (d.start :: claimed) (asked + 1)).after ..

/-! ## Selections -/

theorem select_hushed (oracle : Oracle) (rules : Rules) (token : Token) (asked : Nat) (document : Document)
    (ds : List Diagnostic) :
    (select oracle rules token asked document ds).skippedFile =
        (select oracle.hushed rules token asked document ds).skippedFile ∧
      Hushed oracle document (select oracle rules token asked document ds).toWalk
        (select oracle.hushed rules token asked document ds).toWalk := by
  unfold select
  split
  · exact ⟨rfl, .refl _⟩
  split
  · exact ⟨rfl, .refl _⟩
  · exact ⟨rfl, walk_hushed ..⟩

theorem path_patches (oracle : Oracle) (rules : Rules) (token : Token) (asked : Nat) (document : Document)
    (ds : List Diagnostic) : (select oracle rules token asked document ds).patches.path = document.path := by
  unfold select
  split
  · rfl
  · split <;> rfl

/-- A failed query is contained: a selection is the one of the oracle that offers no fix where this one fails, in
its patches, its queries, the verdicts that it reports and the file that it may skip, apart from what is said of the
failed queries. It ends alike as well, and if it ends in a failure, the token or the rules made it. -/
theorem failed_queries_contained (oracle : Oracle) (rules : Rules) (token : Token) (asked : Nat) (document : Document)
    (ds : List Diagnostic) :
    let s := select oracle rules token asked document ds
    let s' := select oracle.hushed rules token asked document ds
    s.patches = s'.patches ∧ s.skippedFile = s'.skippedFile ∧ s.journal.queries = s'.journal.queries ∧
    s.outcomes.map headline = s'.outcomes.map headline ∧ Hushes oracle document s.journal s'.journal ∧
    s.ending = s'.ending ∧
    (s.ending = .ok () ∨ ∃ failure, s.ending = .error failure ∧ EndsBy rules token document ds failure) := by
  intro s s'
  obtain ⟨hskipped, hpatches, hjournal, hending⟩ := select_hushed oracle rules token asked document ds
  have hset : s.patches = s'.patches := by
    rw [PatchSet.mk.injEq]
    exact ⟨(path_patches ..).trans (path_patches ..).symm, hpatches⟩
  refine ⟨hset, hskipped, hjournal.queries, hjournal.headlines, hjournal, hending, ?_⟩
  rcases hend : s.ending with failure | ⟨⟩
  · exact .inr ⟨failure, rfl, select_endsBy hend⟩
  · exact .inl rfl

/-- A failed query claims no start: the next finding there is fixed, even if the failure asked to stop. -/
example : (select ⟨fun d _ => if d.code = "E1" then .error (.cancelled "stop") else
      .ok [⟨"fix", "", [.replace 0 1 "x"], none⟩], true⟩ Rules.none Token.never 0 ⟨"a.py", "ab"⟩
    [⟨"E1", some "a.py", 0, 1, ""⟩, ⟨"E2", some "a.py", 0, 2, ""⟩]).outcomes =
    [⟨some "a.py", some ⟨"E1", some "a.py", 0, 1, ""⟩, .noFix, "oracle failure: stop"⟩,
      ⟨some "a.py", some ⟨"E2", some "a.py", 0, 2, ""⟩, .fixed, "fix"⟩] := by
  rfl

end Selection

end Amend
