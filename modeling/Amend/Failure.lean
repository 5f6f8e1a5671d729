/-
How a collaborator of a run (the oracle of fixes, a filter, a hook, a writer) fails. Only the kind
of a failure decides what a run makes of it; its message is passed on.
-/
namespace Amend

/-- A failure of a collaborator. -/
inductive Failure where
  /-- The oracle declines to answer a query. -/
  | declined (message : String)
  /-- The run is to stop. -/
  | cancelled (message : String)
  /-- A file could not be written. -/
  | unwritten (message : String)
  /-- Anything else, with the name of its kind. -/
  | broken (kind message : String)
  deriving DecidableEq, Repr

namespace Failure

/-- What the failure says. -/
def message : Failure → String
  | .declined m => m
  | .cancelled m => m
  | .unwritten m => m
  | .broken _ m => m

/-- The name of the kind of failure. -/
def kind : Failure → String
  | .declined _ => "OracleQueryFailure"
  | .cancelled _ => "OperationCancelled"
  | .unwritten _ => "WriteFailure"
  | .broken k _ => k

/-- What a failed query is reported as: its message, or its kind when it has none. An oracle that
declines is taken at its word. -/
def reason : Failure → String
  | .declined m => m
  | failure => if failure.message.isEmpty then failure.kind else failure.message

/-- Does the failure ask the run to stop? -/
def isCancelled : Failure → Bool
  | .cancelled _ => true
  | _ => false

/-- The failure that a requested cancellation causes. -/
def runCancelled : Failure :=
  .cancelled "Run cancelled"

end Failure

end Amend
