/-
The edits chosen for one file, each with the finding it answers, and what merging them does.
-/
import Amend.Diagnostic
import Amend.Merge

namespace Amend

/-- An edit and the finding that asked for it. -/
structure Patch where
  diagnostic : Diagnostic
  edit : Edit
  deriving DecidableEq, Repr

/-- The edits gathered for one file, in the order of discovery. -/
structure PatchSet where
  path : String
  patches : List Patch
  deriving DecidableEq, Repr

namespace PatchSet

/-- Adds the edits of one finding. -/
def add (set : PatchSet) (d : Diagnostic) (edits : List Edit) : PatchSet :=
  { set with patches := set.patches ++ edits.map (Patch.mk d) }

/-- The edits alone. -/
def edits (set : PatchSet) : List Edit :=
  set.patches.map (·.edit)

end PatchSet

/-- The items without those that stand earlier in the list. -/
def firstOccurrences {α : Type} [DecidableEq α] : List α → List α
  | [] => []
  | a :: rest => a :: (firstOccurrences rest).filter (· ≠ a)

/-- What merging a patch set made of a document. -/
structure PatchResult where
  path : String
  before : String
  after : String
  applied : List Patch
  skipped : List Patch
  deriving DecidableEq, Repr

namespace PatchResult

/-- Does the merged text differ? -/
def changed (r : PatchResult) : Bool :=
  r.after ≠ r.before

/-- The findings that lost an edit, by their first lost edit. -/
def skippedDiagnostics (r : PatchResult) : List Diagnostic :=
  firstOccurrences (r.skipped.map (·.diagnostic))

/-- The findings that lost all their edits. -/
def droppedDiagnostics (r : PatchResult) : List Diagnostic :=
  r.skippedDiagnostics.filter fun d => !(r.applied.map (·.diagnostic)).contains d

end PatchResult

/-- Merges a patch set into its document. -/
def PatchSet.apply (set : PatchSet) (document : Document) : Except InvalidSpan PatchResult :=
  (Merge.mergeBy (·.edit) document.text set.patches).map fun m =>
    ⟨document.path, document.text, m.text, m.applied, m.skipped⟩

end Amend
