/-
A run: findings are grouped by file, and for each file fixes are chosen, merged and written. What
goes wrong with one file stays with it; only a cancellation ends the run, between two findings or
two files.
-/
import Amend.Diff.Unified
import Amend.Files.Loader
import Amend.Files.Writer
import Amend.Group
import Amend.Selection
import Amend.Summary

namespace Amend

/-- The files of a project and what has been read of them. -/
structure Workspace where
  tree : FileTree
  loader : Loader

/-- Loads a document through the workspace's loader. -/
def Workspace.load (ws : Workspace) (path : String) : Except LoadFault Document × Workspace :=
  let (document, loader) := ws.loader.load ws.tree path
  (document, { ws with loader := loader })

/-- How a run is to be done. -/
structure RunOptions where
  rules : Rules
  dryRun : Bool
  collectDiffs : Bool
  workers : Int

/-- What came of one file. -/
structure FileResult where
  path : String
  written : Bool
  diff : String
  deriving DecidableEq, Repr

namespace Run

/-- All that a run works with. -/
structure Setup where
  oracle : Oracle
  options : RunOptions
  token : Token
  writer : Writer

/-- A file that nothing was done to. -/
def untouched (path : String) : FileResult :=
  ⟨path, false, ""⟩

/-- The event on a whole file that something went wrong with. -/
def fileError (path detail : String) : Entry :=
  .outcome ⟨some path, none, .error, detail⟩

/-- What is left to do for a file once its findings have been looked at. -/
inductive Next where
  /-- Nothing: the file is done, or a failure ended it. -/
  | finish (result : Except Failure FileResult)
  /-- Its new text is to be written. -/
  | store (content diff : String) (applied skipped : Nat)

/-- What happens up to the writing of a file. -/
structure Plan where
  journal : Journal
  next : Next

/-- What is said of the edits and findings that lost out in a merge. -/
def overlapNotes (path : String) (r : PatchResult) : Journal :=
  let dropped := r.droppedDiagnostics
  (r.skipped.map fun patch => Entry.note .info .run
      s!"Skipping overlapping change in {path}: start={patch.edit.span.start} length={patch.edit.span.length}")
    ++ (dropped.map fun d => Entry.outcome
      ⟨some path, some d, .skippedOverlap, "every edit overlaps an applied edit"⟩)
    ++ ((r.skippedDiagnostics.filter fun d => !dropped.contains d).map fun d =>
      Entry.note .warning .run s!"Fix for {d.describe} was only partially applied")

/-- Plans what a merge that succeeded leads to. -/
def planMerged (options : RunOptions) (path : String) (r : PatchResult) : Next :=
  if !r.changed then .finish (.ok (untouched path))
  else
    let diff := if options.dryRun || options.collectDiffs then Diff.unified path r.before r.after else ""
    if options.dryRun then .finish (.ok ⟨path, false, diff⟩)
    else .store r.after diff r.applied.length r.skipped.length

/-- Plans the work on a file whose document is known, `asked` queries having been put before. -/
def plan (setup : Setup) (asked : Nat) (path : String) (document : Document)
    (ds : List Diagnostic) : Plan :=
  let selection := Selection.select setup.oracle setup.options.rules setup.token asked document ds
  let journal := Entry.note .info .run s!"Processing code fixes for {path}" :: selection.journal
  match selection.ending with
  | .error failure => ⟨journal, .finish (.error failure)⟩
  | .ok () =>
    if selection.skippedFile || selection.patches.patches.isEmpty then
      ⟨journal, .finish (.ok (untouched path))⟩
    else match selection.patches.apply document with
      | .error e =>
        ⟨journal ++ [.note .error .run s!"Aborting fixes for {path}: {e.message}",
          fileError path e.message], .finish (.ok (untouched path))⟩
      | .ok r => ⟨journal ++ overlapNotes path r, planMerged setup.options path r⟩

/-- Plans the work on a file from what loading it gave. -/
def planLoaded (setup : Setup) (asked : Nat) (path : String) (ds : List Diagnostic) :
    Except LoadFault Document → Plan
  | .ok document => plan setup asked path document ds
  | .error fault =>
    if fault.isUnreadable then
      ⟨[.note .warning .run s!"Cannot read {path}: {fault.message}",
        fileError path s!"unreadable: {fault.message}"], .finish (.ok (untouched path))⟩
    else ⟨[], .finish (.error fault.toFailure)⟩

/-- What is said once a file was written, or was not. -/
def afterWrite (path diff : String) (applied skipped : Nat) :
    Except Failure Unit → Journal × Except Failure FileResult
  | .ok () =>
    ([.telemetry "file_written" [("path", .str path), ("applied", .int applied),
      ("skipped", .int skipped)]], .ok ⟨path, true, diff⟩)
  | .error (.unwritten message) =>
    ([.note .error .run message, fileError path message], .ok ⟨path, false, diff⟩)
  | .error failure => ([], .error failure)

/-- Keeps a failure within its file, unless it asks the run to stop. -/
def guarded (path : String) :
    Journal × Except Failure FileResult → Journal × Except Failure FileResult
  | (journal, .error failure) =>
    if failure.isCancelled then (journal, .error failure)
    else (journal ++ [.note .error .run s!"Unexpected failure while fixing {path}",
      fileError path failure.message], .ok (untouched path))
  | done => done

/-- Does what is left to do for a file. -/
def perform (setup : Setup) (tree : FileTree) (path : String) :
    Next → Journal × Except Failure FileResult × FileTree
  | .finish result =>
    let (journal, result) := guarded path ([], result)
    (journal, result, tree)
  | .store content diff applied skipped =>
    let w := setup.writer.write tree path content
    let (journal, result) := guarded path (afterWrite path diff applied skipped w.result)
    (Entry.write path content w.result :: w.notes.map LogLine.entry ++ journal, result, w.tree)

/-- What processing one file did. -/
structure FileRun where
  journal : Journal
  result : Except Failure FileResult
  workspace : Workspace

/-- Processes one file from beginning to end. -/
def processFile (setup : Setup) (ws : Workspace) (asked : Nat) (path : String)
    (ds : List Diagnostic) : FileRun :=
  let (document, ws) := ws.load path
  let p := planLoaded setup asked path ds document
  let (journal, result, tree) := perform setup ws.tree path p.next
  ⟨p.journal ++ journal, result, { ws with tree := tree }⟩

/-- What processing all files did. `interrupted` is there when the run was cancelled, and holds the
files that were left half-way. -/
structure FilesRun where
  journal : Journal
  results : List FileResult
  interrupted : Option (List String)
  workspace : Workspace

/-- Processes files one after the other. -/
def sequential (setup : Setup) : Workspace → Nat → Table String (List Diagnostic) → FilesRun
  | ws, _, [] => ⟨[], [], none, ws⟩
  | ws, asked, (path, ds) :: rest =>
    if setup.token.isSet ⟨asked, path, none⟩ then ⟨[], [], some [], ws⟩
    else
      let file := processFile setup ws asked path ds
      match file.result with
      | .error _ => ⟨file.journal, [], some [path], file.workspace⟩
      | .ok result =>
        let others := sequential setup file.workspace
          (asked + (Journal.queries file.journal).length) rest
        { others with journal := file.journal ++ others.journal
                      results := result :: others.results }

end Run

end Amend
