/-
From the messages of a report to findings and the table of their fixes. Places become offsets into
the document; a message whose own place cannot be mapped is dropped, and a fix with such a place is
dropped from its message.
-/
import Amend.LineIndex
import Amend.Report.Command
import Amend.Report.Message
import Amend.Run

namespace Amend.Report

/-- The code of messages that have none. -/
def plainErrorCode : String := "syntax-error"

/-- The code of a message. -/
def Message.codeText (m : Message) : String :=
  match m.code with
  | some code => if code.isEmpty then plainErrorCode else code
  | none => plainErrorCode

/-- The path of a reported file: relative to the root if it lies below it. -/
def relativePath (cwd : List String) (root : FilePath) (filename : String) : String :=
  let p := FilePath.ofString filename
  if !p.isAbsolute || p.hasNul then p.text
  else match (p.resolve cwd).relativeTo? root with
    | some relative => relative.text
    | none => p.text

/-- The last segment of the address of a rule's page. -/
def ruleName? (url : Option String) : Option String :=
  url.bind fun s =>
    let trimmed := s.toList.reverse.dropWhile (· = '/')
    let segment := (trimmed.takeWhile (· ≠ '/')).reverse
    if segment.isEmpty then none else some (String.ofList segment)

/-- The offsets of a place and of a place after it. -/
def offsets (index : LineIndex) (start stop : Location) : Except PositionError (Nat × Nat) := do
  let first ← index.offset start.row start.column
  let last ← index.offset stop.row stop.column
  return (first, last)

/-- The edits of a fix. -/
def fixEdits (index : LineIndex) : List ReportEdit → Except PositionError (List Edit)
  | [] => .ok []
  | e :: rest => do
    let (first, last) ← offsets index e.start e.stop
    let others ← fixEdits index rest
    return Edit.replace first ((last : Int) - first) e.content :: others

/-- May a fix be used? It needs edits and enough trust. -/
def ReportFix.usable (fix : ReportFix) (risky : Bool) : Bool :=
  !fix.edits.isEmpty && match fix.applicability with
    | .safe => true
    | .risky => risky
    | .displayOnly => false

/-- A text, unless it is empty. -/
def nonEmpty (s : Option String) : Option String :=
  s.filter (· ≠ "")

/-- The fix that a message offers, and what is said if it has to be dropped. -/
def candidate (settings : Settings) (index : LineIndex) (path : String) (m : Message) :
    Journal × Option Candidate :=
  match m.fix with
  | none => ([], none)
  | some fix =>
    if !fix.usable settings.riskyFixes then ([], none)
    else match fixEdits index fix.edits with
      | .error e =>
        let code := m.code.getD "None"
        ([.note .warning .report s!"Dropping fix for {code} in {path}: {e.message}"], none)
      | .ok edits =>
        ([], some {
          name := (ruleName? m.url).getD m.codeText
          description := (nonEmpty fix.message).getD m.message
          edits := edits
          group := some m.codeText })

/-- The fixes on offer, by finding. -/
abbrev FixTable := Table Diagnostic (List Candidate)

namespace FixTable

/-- The fixes for a finding. -/
def of (fixes : FixTable) (d : Diagnostic) : List Candidate :=
  (fixes.get? d).getD []

/-- Adds a fix, unless an equal one is there. -/
def add (fixes : FixTable) (d : Diagnostic) (c : Candidate) : FixTable :=
  fixes.alter d fun known => if (known.getD []).contains c then known.getD [] else known.getD [] ++ [c]

end FixTable

/-- What a message converts to. -/
structure Converted where
  diagnostic : Option Diagnostic
  candidate : Option Candidate
  journal : Journal

/-- A finding that is known to belong to no file. -/
def homeless (m : Message) : Diagnostic :=
  ⟨m.codeText, none, 0, 0, m.message⟩

/-- Converts a message on a document. -/
def convertIn (settings : Settings) (path : String) (document : Document) (m : Message) : Converted :=
  let index := LineIndex.ofText document.text
  match offsets index m.start m.stop with
  | .error e =>
    ⟨none, none, [.note .warning .report
      s!"Skipping {m.codeText} diagnostic with unmappable location in {path}: {e.message}"]⟩
  | .ok (start, stop) =>
    let (journal, candidate) := candidate settings index path m
    ⟨some ⟨m.codeText, some path, start, max ((stop : Int) - start) 0, m.message⟩, candidate, journal⟩

/-- Converts a message, loading its document. A file that cannot be read makes a finding without a
file; a fault that is not the file's ends the conversion. -/
def convert (settings : Settings) (root : FilePath) (ws : Workspace) (m : Message) :
    Except LoadFault Converted × Workspace :=
  match nonEmpty m.filename with
  | none => (.ok ⟨some (homeless m), none, []⟩, ws)
  | some filename =>
    let path := relativePath ws.tree.cwd root filename
    match ws.load path with
    | (.ok document, ws) => (.ok (convertIn settings path document m), ws)
    | (.error fault, ws) =>
      if fault.isUnreadable then
        (.ok ⟨some (homeless m), none,
          [.note .warning .report s!"Cannot read {path} reported by ruff: {fault.message}"]⟩, ws)
      else (.error fault, ws)

/-- What a row of messages converts to. -/
structure Conversion where
  diagnostics : List Diagnostic
  fixes : FixTable
  journal : Journal
  ending : Except LoadFault Unit
  workspace : Workspace

/-- Converts messages one after the other, adding to the fixes known so far. -/
def convertAll (settings : Settings) (root : FilePath) :
    Workspace → FixTable → List Message → Conversion
  | ws, fixes, [] => ⟨[], fixes, [], .ok (), ws⟩
  | ws, fixes, m :: rest =>
    match convert settings root ws m with
    | (.error fault, ws) => ⟨[], fixes, [], .error fault, ws⟩
    | (.ok c, ws) =>
      let fixes := match c.diagnostic, c.candidate with
        | some d, some candidate => fixes.add d candidate
        | _, _ => fixes
      let others := convertAll settings root ws fixes rest
      { others with diagnostics := c.diagnostic.toList ++ others.diagnostics
                    journal := c.journal ++ others.journal }

end Amend.Report
