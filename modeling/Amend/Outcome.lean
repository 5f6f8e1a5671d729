/-
What becomes of a finding, and the events that report it.
-/
import Amend.Diagnostic

namespace Amend

/-- What became of one finding. -/
inductive Outcome where
  | fixed
  | skippedDuplicate
  | skippedOverlap
  | noFix
  | ambiguous
  | error
  deriving DecidableEq, Repr

namespace Outcome

/-- The name of an outcome in reports. -/
def name : Outcome → String
  | .fixed => "fixed"
  | .skippedDuplicate => "skipped-duplicate"
  | .skippedOverlap => "skipped-overlap"
  | .noFix => "no-fix"
  | .ambiguous => "multiple-fixes-ambiguous"
  | .error => "error"

/-- The label of an outcome: what kind of thing it is, and which. -/
def label : Outcome → String
  | .fixed => "Outcome.FIXED"
  | .skippedDuplicate => "Outcome.SKIPPED_DUPLICATE"
  | .skippedOverlap => "Outcome.SKIPPED_OVERLAP"
  | .noFix => "Outcome.NO_FIX"
  | .ambiguous => "Outcome.MULTIPLE_FIXES_AMBIGUOUS"
  | .error => "Outcome.ERROR"

/-- All outcomes. -/
def all : List Outcome :=
  [.fixed, .skippedDuplicate, .skippedOverlap, .noFix, .ambiguous, .error]

/-- The outcome of a name. -/
def ofName? (s : String) : Option Outcome :=
  all.find? (·.name = s)

end Outcome

/-- What happened to one finding, or to a whole file when there is none. -/
structure Event where
  path : Option String
  diagnostic : Option Diagnostic
  outcome : Outcome
  detail : String
  deriving DecidableEq, Repr

end Amend
