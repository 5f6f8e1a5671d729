/-
Analysis by report: the analyzer is run, its report is read, and the fixes in it answer the
queries until the next report.
-/
import Amend.Report.Conversion
import Amend.Run.Complete

namespace Amend.Report

/-- Why the analyzer gave no findings. -/
inductive AnalyzerFault where
  | noExecutable (command : List String)
  | exited (code : Int) (stderr : String) (command : List String)
  | unreadable (fault : ReportFault)
  deriving DecidableEq, Repr

/-- The fault in words. -/
def AnalyzerFault.message : AnalyzerFault → String
  | .noExecutable command =>
    let name := command.headD ""
    s!"Executable not available: {name}"
  | .exited code stderr _ => s!"Ruff exited with code {code}: {Text.trim stderr}"
  | .unreadable fault => fault.message

/-- Why an analysis failed: the analyzer did, a number in its report was too long, a reported file
made no sense, or the program could not be started. -/
inductive AnalysisFault where
  | analyzer (fault : AnalyzerFault)
  | longNumber (digits : Nat)
  | load (fault : LoadFault)
  | launch (failure : Failure)
  deriving DecidableEq, Repr

/-- The fault in words. -/
def AnalysisFault.message : AnalysisFault → String
  | .analyzer fault => fault.message
  | .longNumber digits => Decimal.tooManyDigits digits
  | .load fault => fault.message
  | .launch failure => failure.message

/-- Runs programs: tells whether one is there, and runs a command in a folder. -/
structure Launcher where
  available : FileTree → String → Bool
  launch : FileTree → List String → FilePath → Except Failure Finished × FileTree

/-- A launcher that runs nothing and always gives the same result. -/
def Launcher.given (finished : Finished) : Launcher :=
  ⟨fun _ _ => true, fun tree _ _ => (.ok finished, tree)⟩

/-- The findings and fixes of the last report. -/
structure Backend where
  settings : Settings
  fixes : FixTable

namespace Backend

/-- A backend that has seen no report. -/
def new (settings : Settings) : Backend :=
  ⟨settings, []⟩

/-- The oracle that offers the fixes of the last report. -/
def oracle (backend : Backend) : Oracle :=
  ⟨fun d _ => .ok (backend.fixes.of d), true⟩

/-- What an analysis gave, and the backend it leaves. `command` is the command that was run. -/
structure Response where
  findings : Except AnalysisFault (List Diagnostic)
  backend : Backend
  journal : Journal
  workspace : Workspace
  command : Option (List String)

/-- Takes a finished program's report in. Fixes of earlier reports are forgotten once the report has
been read, and not before. -/
def receive (backend : Backend) (root : FilePath) (ws : Workspace) (command : List String)
    (finished : Finished) : Response :=
  let failed (fault : AnalysisFault) : Response := ⟨.error fault, backend, [], ws, some command⟩
  if finished.code ≠ 0 then failed (.analyzer (.exited finished.code finished.stderr command))
  else match parse finished.stdout with
    | .error (.unreadable fault) => failed (.analyzer (.unreadable fault))
    | .error (.longNumber digits) => failed (.longNumber digits)
    | .ok messages =>
      let c := convertAll backend.settings root ws [] messages
      let filled := { backend with fixes := c.fixes }
      match c.ending with
      | .error fault => ⟨.error (.load fault), filled, c.journal, c.workspace, some command⟩
      | .ok () =>
        let count := c.diagnostics.length
        ⟨.ok c.diagnostics, filled,
          c.journal ++ [.note .info .report s!"Ruff reported {count} diagnostic(s)"],
          c.workspace, some command⟩

/-- Runs the analyzer on some files or folders. -/
def analyze (backend : Backend) (launcher : Launcher) (root : FilePath) (paths : List String)
    (ws : Workspace) : Response :=
  let command := backend.settings.commandLine paths
  if !launcher.available ws.tree (command.headD "") then
    ⟨.error (.analyzer (.noExecutable command)), backend, [], ws, none⟩
  else
    let shown := " ".intercalate command
    let said := Entry.note .info .report s!"Running {shown}"
    let (finished, tree) := launcher.launch ws.tree command root
    let ws := { ws with tree := tree }
    let r : Response := match finished with
      | .error failure => ⟨.error (.launch failure), backend, [], ws, some command⟩
      | .ok finished => backend.receive root ws command finished
    { r with journal := said :: r.journal }

/-- An analysis for a run. -/
def Response.toAnalysis (r : Response) : Analysis AnalysisFault :=
  ⟨r.findings, r.backend.oracle, r.journal, r.workspace⟩

end Backend

end Amend.Report
