/-
The inventory of fixes: how often each fix is offered in each file, without making any.
-/
import Amend.Group
import Amend.Run.Complete

namespace Amend.Listing

/-- How often each fix is offered. -/
abbrev FixCounts := Table String Int

/-- The key under which a fix is counted. -/
def key (name code : String) : String :=
  s!"{name} fixes {code}"

/-- Counts the fixes on offer for one finding. -/
def tally (d : Diagnostic) (candidates : List Candidate) (counts : FixCounts) : FixCounts :=
  candidates.foldl (fun counts candidate =>
    counts.alter (key candidate.name d.code) fun n => n.getD 0 + 1) counts

/-- What counting over findings gives. -/
structure Count where
  counts : Except Failure FixCounts
  journal : Journal

/-- Counts over the findings of a document. An oracle that declines is passed over; any other
failure ends the listing. -/
def ofFindings (oracle : Oracle) (document : Document) : FixCounts → List Diagnostic → Count
  | counts, [] => ⟨.ok counts, []⟩
  | counts, d :: rest =>
    match oracle.answer d document with
    | .ok candidates =>
      let r := ofFindings oracle document (tally d candidates counts) rest
      { r with journal := .query d :: r.journal }
    | .error (.declined message) =>
      let r := ofFindings oracle document counts rest
      { r with journal := .query d
          :: .note .warning .listing s!"Fix lookup failed for {d.describe}: {message}" :: r.journal }
    | .error failure => ⟨.error failure, [.query d]⟩

/-- Why a listing ended early. -/
inductive Fault where
  | failure (failure : Failure)
  | load (fault : LoadFault)
  deriving Repr

/-- What a listing gives. -/
structure Result (ε : Type) where
  counts : Except ε (Table String FixCounts)
  journal : Journal
  workspace : Workspace

/-- The result with things said first. -/
def Result.after {ε : Type} (r : Result ε) (journal : Journal) : Result ε :=
  { r with journal := journal ++ r.journal }

/-- Lists the fixes of files, `asked` queries having been put before. Files without fixes, and
those that cannot be read, are left out. -/
def ofGroups (oracle : Oracle) (token : Token) :
    Workspace → Nat → Table String (List Diagnostic) → Result Fault
  | ws, _, [] => ⟨.ok [], [], ws⟩
  | ws, asked, (path, ds) :: rest =>
    if token.isSet ⟨asked, path, none⟩ then ⟨.error (.failure Failure.runCancelled), [], ws⟩
    else
      match ws.load path with
      | (.error fault, ws) =>
        if fault.isUnreadable then
          (ofGroups oracle token ws asked rest).after
            [.note .warning .listing s!"Cannot read {path}: {fault.message}"]
        else ⟨.error (.load fault), [], ws⟩
      | (.ok document, ws) =>
        let file := ofFindings oracle document [] ds
        match file.counts with
        | .error failure => ⟨.error (.failure failure), file.journal, ws⟩
        | .ok counts =>
          let r := (ofGroups oracle token ws (asked + (Journal.queries file.journal).length)
            rest).after file.journal
          if counts.isEmpty then r else { r with counts := r.counts.map ((path, counts) :: ·) }

/-- Lists the fixes for the findings of an analysis. -/
def ofAnalysis {ε : Type} (token : Token) (analysis : Analysis ε) : Result (ε ⊕ Fault) :=
  match analysis.findings with
  | .error e => ⟨.error (.inl e), analysis.journal, analysis.workspace⟩
  | .ok ds =>
    let grouping := Grouping.ofDiagnostics ds
    let missing : Journal := grouping.missing.map fun e => .note .warning .listing e.message
    let r := (ofGroups analysis.oracle token analysis.workspace 0 grouping.groups).after
      (analysis.journal ++ missing)
    { r with counts := r.counts.mapError .inr }

/-- The lines on one file, by key. -/
def fileLines (path : String) (counts : FixCounts) : List String :=
  let sorted := counts.mergeSort fun a b => a.1 ≤ b.1
  path :: sorted.map fun (key, n) =>
    let noun := if n = 1 then "instance" else "instances"
    s!"  {key}: {n} {noun}"

/-- The listing for a reader. -/
def render (counts : Table String FixCounts) : List String :=
  counts.flatMap fun row => fileLines row.1 row.2

end Amend.Listing
