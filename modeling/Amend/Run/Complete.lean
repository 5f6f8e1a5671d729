/-
The whole of a run: analysis, grouping, the work on the files, and the summary.
-/
import Amend.Run.Pool

namespace Amend

/-- What an analysis gave: findings or an error, the oracle that knows their fixes, what was said
meanwhile, and the workspace it leaves. -/
structure Analysis (ε : Type) where
  findings : Except ε (List Diagnostic)
  oracle : Oracle
  journal : Journal
  workspace : Workspace

/-- An analysis that is known beforehand. -/
def Analysis.given {ε : Type} (ws : Workspace) (oracle : Oracle) (ds : List Diagnostic) : Analysis ε :=
  ⟨.ok ds, oracle, [], ws⟩

/-- What a run gives: its summary or the error of its analysis, all that happened, and the
workspace it leaves. -/
structure RunResult (ε : Type) where
  summary : Except ε Summary
  journal : Journal
  workspace : Workspace

namespace Run

/-- Are the files to be shared out among workers? -/
def isPooled (options : RunOptions) (oracle : Oracle) (files : Nat) : Bool :=
  options.workers > 1 && files > 1 && oracle.concurrent

/-- What is said when the files could have been shared out but for the oracle. -/
def poolNotes (options : RunOptions) (oracle : Oracle) (files : Nat) : Journal :=
  if options.workers > 1 && files > 1 && !oracle.concurrent then
    [.note .warning .run
      "Fix oracle is not safe for concurrent queries; processing files sequentially"]
  else []

/-- What is said of findings without a file. -/
def missingNotes (missing : List MissingFile) : Journal :=
  missing.flatMap fun e => [.note .warning .run e.message,
    .outcome ⟨none, some e.diagnostic, .error, e.message⟩]

/-- The summary of what was done to the files, in the order of the groups. -/
def summarize (groups : List String) (events : List Event) (files : FilesRun) : Summary :=
  let written := (files.results.filter (·.written)).map (·.path)
  let diffs := Table.ofPairs ((files.results.filter (·.diff ≠ "")).map fun r => (r.path, r.diff))
  let summary := Summary.ofEvents events written diffs files.interrupted.isSome
    (files.interrupted.getD [])
  summary.reorder groups

/-- The telemetry that closes a run. -/
def closing (files : Nat) (summary : Summary) : Entry :=
  .telemetry "run_complete" [("files", .int files), ("written", .int summary.writtenPaths.length),
    ("cancelled", .bool summary.cancelled),
    ("totals", .mapping (summary.totals.map fun row => (.str row.1.name, .int row.2)))]

/-- Runs over findings that are known. -/
def overFindings (setup : Setup) (schedule : List Turn) (ws : Workspace) (ds : List Diagnostic) :
    Summary × Journal × Workspace :=
  let grouping := Grouping.ofDiagnostics ds
  let count := grouping.groups.length
  let files :=
    if isPooled setup.options setup.oracle count then pooled setup schedule ws grouping.groups
    else sequential setup ws 0 grouping.groups
  let journal := Entry.telemetry "diagnostics" [("count", .int ds.length)]
    :: missingNotes grouping.missing ++ poolNotes setup.options setup.oracle count ++ files.journal
  let summary := summarize grouping.groups.keys (Journal.events journal) files
  let stopped : Journal := if summary.cancelled then
    [.note .warning .run "Run cancelled; remaining files were left untouched"] else []
  (summary, journal ++ stopped ++ [closing count summary], files.workspace)

/-- Runs from the analysis on. -/
def complete {ε : Type} (options : RunOptions) (token : Token) (writer : Writer)
    (schedule : List Turn) (analysis : Analysis ε) : RunResult ε :=
  let opening := Entry.note .info .run "Running analyzer to get diagnostics" :: analysis.journal
  match analysis.findings with
  | .error e => ⟨.error e, opening, analysis.workspace⟩
  | .ok ds =>
    let setup : Setup := ⟨analysis.oracle, options, token, writer⟩
    let (summary, journal, ws) := overFindings setup schedule analysis.workspace ds
    ⟨.ok summary, opening ++ journal, ws⟩

/-- The writer of a run that is given none: it writes UTF-8 to the files that the loader reads. -/
def defaultWriter (loader : Loader) : Writer :=
  Writer.toFiles loader.codecs loader.resolve "utf-8"

end Run

end Amend
