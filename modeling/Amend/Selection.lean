/-
Choosing at most one fix per finding of a file. Findings are taken in order; one whose start was
already claimed by a fixed finding is a duplicate, since its edits were made for the text before
that fix.
-/
import Amend.Failure
import Amend.Journal
import Amend.PatchSet

namespace Amend

/-- A look that a run takes at its token: before it turns to a file, or before it takes the next of
the `left` findings that the file still has. `asked` queries have been put by then. -/
structure Look where
  asked : Nat
  path : String
  left : Option Nat
  deriving DecidableEq, Repr

/-- Tells at each look whether the run is to stop. -/
structure Token where
  isSet : Look → Bool

namespace Token

/-- A token that nobody sets. -/
def never : Token := ⟨fun _ => false⟩

/-- A token that is set once so many queries have been put to the oracle. Zero means before the run
starts. -/
def afterQueries (n : Nat) : Token := ⟨fun look => n ≤ look.asked⟩

end Token

/-- Proposes fixes for a finding, the preferred one first. -/
structure Oracle where
  answer : Diagnostic → Document → Except Failure (List Candidate)
  concurrent : Bool

/-- What a caller may add to the choice: which findings to keep, which fixes to accept, and how to
rework the edits of the chosen fix. -/
structure Rules where
  keep : Option (Diagnostic → Except Failure Bool)
  accept : Option (Candidate → Except Failure Bool)
  rework : Option (List Edit → Document → Diagnostic → Except Failure (List Edit))

namespace Rules

/-- No rules: every finding, every fix, and edits as they are. -/
def none : Rules := ⟨.none, .none, .none⟩

end Rules

/-- The items that a test keeps, or the first failure of the test. -/
def filterE {α ε : Type} (test : α → Except ε Bool) : List α → Except ε (List α)
  | [] => .ok []
  | a :: rest => do
    let kept ← test a
    let others ← filterE test rest
    return if kept then a :: others else others

namespace Selection

/-- What is decided on one finding. -/
inductive Decision where
  | fixed (name : String) (edits : List Edit)
  | unfixed (detail : String)
  deriving Repr

/-- The event on a finding of a document. -/
def event (document : Document) (d : Diagnostic) (outcome : Outcome) (detail : String) : Entry :=
  .outcome ⟨some document.path, some d, outcome, detail⟩

/-- What is said when several fixes are left for a finding. -/
def ambiguity (document : Document) (d : Diagnostic) (chosen : Candidate)
    (more : List Candidate) : Journal :=
  if more.isEmpty then []
  else
    let count := more.length + 1
    let names := ", ".intercalate ((chosen :: more).map (·.name))
    [.note .info .selection
      s!"Found {count} matching fixes at pos {d.start} in {document.path}. Only '{chosen.name}' will be applied.",
     event document d .ambiguous names]

/-- Decides on a finding from the oracle's answer. A failed query counts as no fix; a failing rule
ends the selection. -/
def judge (rules : Rules) (document : Document) (d : Diagnostic)
    (answer : Except Failure (List Candidate)) : Journal × Except Failure Decision :=
  match answer with
  | .error failure =>
    ([.note .warning .selection s!"Fix lookup failed for {d.describe}: {failure.reason}"],
      .ok (.unfixed s!"oracle failure: {failure.reason}"))
  | .ok candidates =>
    match rules.accept.elim (.ok candidates) (filterE · candidates) with
    | .error failure => ([], .error failure)
    | .ok [] => ([], .ok (.unfixed ""))
    | .ok (chosen :: more) =>
      (ambiguity document d chosen more,
        match rules.rework.elim (.ok chosen.edits) (· chosen.edits document d) with
        | .error failure => .error failure
        | .ok [] => .ok (.unfixed s!"{chosen.name} produced no edits")
        | .ok edits => .ok (.fixed chosen.name edits))

/-- What a walk over findings gives: patches, what happened, and how it ended. -/
structure Walk where
  patches : List Patch
  journal : Journal
  ending : Except Failure Unit

/-- The walk that does these things first. -/
def Walk.after (walk : Walk) (patches : List Patch) (journal : Journal) : Walk :=
  { walk with patches := patches ++ walk.patches, journal := journal ++ walk.journal }

/-- Takes findings one after the other. `claimed` holds the starts of the fixed ones, and `asked`
counts the queries. -/
def walk (oracle : Oracle) (rules : Rules) (token : Token) (document : Document) :
    List Int → Nat → List Diagnostic → Walk
  | _, _, [] => ⟨[], [], .ok ()⟩
  | claimed, asked, d :: rest =>
    if token.isSet ⟨asked, document.path, some (rest.length + 1)⟩ then
      ⟨[], [], .error Failure.runCancelled⟩
    else if claimed.contains d.start then
      (walk oracle rules token document claimed asked rest).after []
        [event document d .skippedDuplicate s!"start {d.start} already fixed"]
    else
      let (notes, decision) := judge rules document d (oracle.answer d document)
      let said := Entry.query d :: notes
      match decision with
      | .error failure => ⟨[], said, .error failure⟩
      | .ok (.unfixed detail) =>
        (walk oracle rules token document claimed (asked + 1) rest).after []
          (said ++ [event document d .noFix detail])
      | .ok (.fixed name edits) =>
        (walk oracle rules token document (d.start :: claimed) (asked + 1) rest).after
          (edits.map (Patch.mk d)) (said ++ [event document d .fixed name])

end Selection

/-- The fixes chosen for one file. -/
structure Selection where
  patches : PatchSet
  journal : Journal
  skippedFile : Bool
  ending : Except Failure Unit

namespace Selection

/-- The outcomes of the findings. -/
def outcomes (selection : Selection) : List Event :=
  selection.journal.events

/-- Chooses fixes for the findings of a document, `asked` queries having been put before. A file
none of whose findings is kept is skipped. -/
def select (oracle : Oracle) (rules : Rules) (token : Token) (asked : Nat) (document : Document)
    (ds : List Diagnostic) : Selection :=
  match rules.keep.elim (.ok ds) (filterE · ds) with
  | .error failure => ⟨⟨document.path, []⟩, [], false, .error failure⟩
  | .ok kept =>
    if rules.keep.isSome && kept.isEmpty then ⟨⟨document.path, []⟩, [], true, .ok ()⟩
    else
      let w := walk oracle rules token document [] asked kept
      ⟨⟨document.path, w.patches⟩, w.journal, false, w.ending⟩

end Selection

end Amend
