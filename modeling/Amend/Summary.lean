/-
The summary of a run: counts of outcomes per file, one final outcome per finding. An overlap takes
back the fix it undoes, and an error of a whole file, like an interruption, takes back all its
fixes.
-/
import Amend.Outcome
import Amend.Table
import Amend.Text.Blank

namespace Amend

/-- Outcomes with their counts, in the order in which they were first counted. -/
abbrev Counts := Table Outcome Int

namespace Counts

/-- How often an outcome was counted. -/
def of (counts : Counts) (outcome : Outcome) : Int :=
  (counts.get? outcome).getD 0

/-- Counts an outcome `n` more times. -/
def add (counts : Counts) (outcome : Outcome) (n : Int) : Counts :=
  counts.put outcome (counts.of outcome + n)

/-- Takes `n` counts of an outcome back. What is left is positive or not there at all. -/
def retract (counts : Counts) (outcome : Outcome) (n : Int) : Counts :=
  let left := counts.of outcome - n
  if left > 0 then counts.put outcome left else counts.erase outcome

/-- Duplicates and overlaps together. -/
def skipped (counts : Counts) : Int :=
  counts.of .skippedDuplicate + counts.of .skippedOverlap

end Counts

/-- What happened to one file. -/
structure FileSummary where
  path : String
  counts : Counts
  written : Bool
  errors : List String
  diff : String
  deriving Repr

namespace FileSummary

/-- A file to which nothing happened yet. -/
def empty (path : String) : FileSummary :=
  ⟨path, [], false, [], ""⟩

/-- Takes `n` counts of an outcome back. -/
def retract (file : FileSummary) (outcome : Outcome) (n : Int) : FileSummary :=
  { file with counts := file.counts.retract outcome n }

/-- Counts an outcome once more. -/
def count (file : FileSummary) (outcome : Outcome) : FileSummary :=
  { file with counts := file.counts.add outcome 1 }

end FileSummary

/-- The fixes of a file that nothing has taken back, by finding. -/
abbrev LiveFixes := Table Diagnostic Nat

namespace LiveFixes

/-- How many fixes of a finding stand. -/
def of (live : LiveFixes) (d : Diagnostic) : Nat :=
  (live.get? d).getD 0

/-- How many fixes stand. -/
def total (live : LiveFixes) : Nat :=
  live.values.foldl (· + ·) 0

end LiveFixes

/-- A file's summary while events come in. -/
structure FileTally where
  summary : FileSummary
  live : LiveFixes
  deriving Repr

namespace FileTally

/-- A file without events. -/
def empty (path : String) : FileTally :=
  ⟨FileSummary.empty path, []⟩

/-- Settles which fixes an event adds or takes back. -/
def settle (tally : FileTally) (event : Event) : FileTally :=
  match event.outcome, event.diagnostic with
  | .fixed, some d => { tally with live := tally.live.put d (tally.live.of d + 1) }
  | .skippedOverlap, some d =>
    if tally.live.of d > 0 then
      { summary := tally.summary.retract .fixed 1
        live := tally.live.put d (tally.live.of d - 1) }
    else tally
  | .error, none => { summary := tally.summary.retract .fixed tally.live.total, live := [] }
  | _, _ => tally

/-- Takes an event in. -/
def add (tally : FileTally) (event : Event) : FileTally :=
  let settled := tally.settle event
  let counted := settled.summary.count event.outcome
  let errors :=
    if event.outcome = .error && event.detail ≠ "" then counted.errors ++ [event.detail]
    else counted.errors
  { settled with summary := { counted with errors := errors } }

/-- Takes all fixes back that stand. -/
def interrupt (tally : FileTally) : FileTally :=
  { tally with summary := tally.summary.retract .fixed tally.live.total }

end FileTally

/-- What is known of a run while its events come in. -/
structure RunTally where
  files : Table String FileTally
  unresolved : List Event
  deriving Repr

namespace RunTally

/-- Changes the tally of a file, starting one if there is none. -/
def onFile (tally : RunTally) (path : String) (f : FileTally → FileTally) : RunTally :=
  { tally with files := tally.files.alter path fun t => f (t.getD (FileTally.empty path)) }

/-- Takes an event in; one without a file is kept aside. -/
def add (tally : RunTally) (event : Event) : RunTally :=
  match event.path with
  | none => { tally with unresolved := tally.unresolved ++ [event] }
  | some path => tally.onFile path (·.add event)

/-- Takes the fixes of an interrupted file back. -/
def interrupt (tally : RunTally) (path : String) : RunTally :=
  if tally.files.has path then tally.onFile path FileTally.interrupt else tally

/-- Marks a file as written. -/
def markWritten (tally : RunTally) (path : String) : RunTally :=
  tally.onFile path fun t => { t with summary := { t.summary with written := true } }

/-- Gives a file its diff. -/
def setDiff (tally : RunTally) (path diff : String) : RunTally :=
  tally.onFile path fun t => { t with summary := { t.summary with diff := diff } }

/-- All events taken in, one after the other. -/
def ofEvents (events : List Event) : RunTally :=
  events.foldl add ⟨[], []⟩

end RunTally

/-- What a run did. -/
structure Summary where
  files : Table String FileSummary
  unresolved : List Event
  cancelled : Bool
  deriving Repr

namespace Summary

/-- Folds events into a summary. -/
def ofEvents (events : List Event) (written : List String) (diffs : Table String String)
    (cancelled : Bool) (interrupted : List String) : Summary :=
  let tally := RunTally.ofEvents events
  let tally := interrupted.foldl RunTally.interrupt tally
  let tally := written.foldl RunTally.markWritten tally
  let tally := diffs.foldl (fun t row => t.setDiff row.1 row.2) tally
  ⟨tally.files.map fun row => (row.1, row.2.summary), tally.unresolved, cancelled⟩

/-- Counts over all files, then over the events without one. -/
def totals (summary : Summary) : Counts :=
  let files := summary.files.values.flatMap (·.counts)
  let loose := summary.unresolved.map fun event => (event.outcome, (1 : Int))
  (files ++ loose).foldl (fun counts row => counts.add row.1 row.2) []

/-- The files that were written. -/
def writtenPaths (summary : Summary) : List String :=
  (summary.files.filter (·.2.written)).map (·.1)

/-- Did anything go wrong? -/
def hasErrors (summary : Summary) : Bool :=
  summary.totals.of .error > 0

/-- The files in the order of `paths`, then all others. -/
def reorder (summary : Summary) (paths : List String) : Summary :=
  let listed := paths.filterMap fun path => (summary.files.get? path).map (path, ·)
  let others := summary.files.filter fun row => !paths.contains row.1
  { summary with files := listed ++ others }

/-- The lines on one file. -/
def fileLines (path : String) (file : FileSummary) : List String :=
  let status := if file.written then "written" else "unchanged"
  let fixed := file.counts.of .fixed
  let skipped := file.counts.skipped
  let errored := file.counts.of .error
  s!"{path}: fixed {fixed} | skipped {skipped} | errored {errored} ({status})"
    :: file.errors.map ("  error: " ++ ·)

/-- The line of totals. -/
def totalLine (summary : Summary) : String :=
  let totals := summary.totals
  let fixed := totals.of .fixed
  let skipped := totals.skipped
  let noFix := totals.of .noFix
  let errored := totals.of .error
  let written := summary.writtenPaths.length
  s!"Total: fixed {fixed} | skipped {skipped} | no fix {noFix} | errored {errored} | files written {written}"

/-- The summary for a reader. -/
def render (summary : Summary) : List String :=
  (summary.files.flatMap fun row => fileLines row.1 row.2)
    ++ (summary.unresolved.map fun event =>
      Text.trimEnd s!"(no file): {event.outcome.name} {event.detail}")
    ++ [summary.totalLine]
    ++ (if summary.cancelled then ["Run cancelled before all files were processed."] else [])

end Summary

end Amend
