/-
What an analyzer finds, and the fixes that are offered for it.
-/
import Amend.Span

namespace Amend

/-- One finding, anchored to a range of a file if it has one. -/
structure Diagnostic where
  code : String
  path : Option String
  start : Int
  length : Int
  message : String
  deriving DecidableEq, Repr

namespace Diagnostic

/-- The first offset after the finding. -/
def stop (d : Diagnostic) : Int :=
  d.start + d.length

/-- The file of a finding, if it names one. -/
def file? (d : Diagnostic) : Option String :=
  d.path.filter (· ≠ "")

/-- The finding in one line. -/
def describe (d : Diagnostic) : String :=
  let place := d.file?.getD "<unknown>"
  let head := s!"{place}@{d.start} {d.code}"
  if d.message.isEmpty then head else s!"{head}: {d.message}"

end Diagnostic

/-- One remedy that is offered for a finding. -/
structure Candidate where
  name : String
  description : String
  edits : List Edit
  group : Option String
  deriving DecidableEq, Repr

end Amend
