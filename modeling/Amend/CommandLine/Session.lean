/-
Carrying out what a command line asks for: the exit code, the text on standard output, the log, and
the files it leaves.
-/
import Amend.CommandLine.Invocation
import Amend.Config.Store
import Amend.Filter
import Amend.Listing
import Amend.Report.Analysis

namespace Amend.CommandLine

open Report (AnalysisFault Backend Launcher)

/-- What a command finds: the files, the programs it can run, the time, and the codecs there are. -/
structure Surroundings where
  tree : FileTree
  launcher : Launcher
  time : String
  codecs : Codecs

/-- A fault that a command does not answer for. -/
inductive Escape where
  | config (fault : ConfigFault)
  | file (fault : FileFault)
  | analysis (fault : AnalysisFault)
  | listing (fault : Listing.Fault)

/-- The fault in words. -/
def Escape.message : Escape → String
  | .config fault => fault.message
  | .file fault => fault.message
  | .analysis fault => fault.message
  | .listing (.failure failure) => failure.message
  | .listing (.load fault) => fault.message

/-- What a command leaves behind. `command` is the command that the analyzer was run with, and the
folder it was run in. -/
structure Reply where
  code : Nat
  output : String
  log : List LogLine
  tree : FileTree
  command : Option (List String × FilePath)
  escape : Option Escape

/-! ## The output -/

/-- How many characters a colour code at the start of a text has: an escape, a bracket, digits and
signs, and a letter. -/
def colourLength? (cs : List Char) : Option Nat :=
  match cs with
  | '\x1b' :: '[' :: rest =>
    let signs := rest.takeWhile fun c => c = ';' || c = '?' || Text.isPlainDigit c
    if (rest.drop signs.length).head?.any Text.isLatinLetter then some (signs.length + 3) else none
  | _ => none

/-- A text without its colour codes; the first `skip` characters belong to one. -/
def withoutColours : Nat → List Char → List Char
  | _, [] => []
  | skip + 1, _ :: rest => withoutColours skip rest
  | 0, c :: rest =>
    match colourLength? (c :: rest) with
    | some n => withoutColours (n - 1) rest
    | none => c :: withoutColours 0 rest

/-- A text as it is printed: no terminal is written to, so colours are left out. -/
def printed (s : String) : String :=
  String.ofList (withoutColours 0 s.toList)

/-- Lines as they are printed. -/
def printedLines (lines : List String) : String :=
  String.join (lines.map fun line => printed (line ++ "\n"))

namespace Reply

/-- A reply of lines of output and nothing else. -/
def ofLines (tree : FileTree) (code : Nat) (lines : List String) : Reply :=
  ⟨code, printedLines lines, [], tree, none, none⟩

/-- The reply to a fault that is not answered for. -/
def ofEscape (tree : FileTree) (fault : Escape) : Reply :=
  { ofLines tree 1 [] with escape := some fault }

end Reply

/-! ## The log -/

/-- Is a line of the log heard? Telemetry is heard if it is switched on, and all else from a level
on. -/
def isHeard (logging : Logging) (verbose : Bool) (line : LogLine) : Bool :=
  if line.channel = .telemetry then logging.telemetry
  else (if verbose then Level.debug else logging.level).rank ≤ line.level.rank

/-- The lines of a journal that are heard. -/
def heard (logging : Logging) (verbose : Bool) (time : String) (echo : Bool) (journal : Journal) :
    List LogLine :=
  (journal.log time echo).filter (isHeard logging verbose)

/-- A line of the log as it is printed. -/
def logText (line : LogLine) : String :=
  s!"{line.level.name} {line.channel.name}: {line.text}\n"

/-! ## The commands -/

/-- Goes on with the configuration of a name, or replies to what is wrong with it. -/
def withConfig (tree : FileTree) (name : String) (next : Config → Reply) : Reply :=
  match Config.load tree (some (FilePath.ofString name)) with
  | .ok config => next config
  | .error fault =>
    if fault.isConfigError then Reply.ofLines tree 1 [fault.message]
    else Reply.ofEscape tree (.config fault)

/-- The folder of the project without steps to a parent. -/
def projectFolder (config : Config) (tree : FileTree) : Except FileFault FilePath := do
  let folder ← config.rootFolder tree.cwd
  if folder.hasNul then .error .zeroByte else return folder.resolve tree.cwd

/-- Goes on with an analysis of the project in its folder. -/
def withAnalysis (world : Surroundings) (config : Config) (risky : Bool) (paths : List String)
    (next : FilePath → Backend.Response → Reply) : Reply :=
  match projectFolder config world.tree with
  | .error fault => Reply.ofEscape world.tree (.file fault)
  | .ok folder =>
    let usual := config.analyzer.settings
    let backend := Backend.new { usual with riskyFixes := usual.riskyFixes || risky }
    let ws : Workspace := ⟨world.tree, (Loader.new (some folder) config.project.encoding).withCodecs world.codecs⟩
    let asked := if paths.isEmpty then config.analyzer.paths else paths
    next folder (backend.analyze world.launcher folder asked ws)

/-- The output for an analysis that failed, or the fault if it is not answered for. -/
def analysisFailure (fault : AnalysisFault) : List String × Option Escape :=
  match fault with
  | .analyzer fault => ([s!"Analyzer failed: {fault.message}"], none)
  | fault => ([], some (.analysis fault))

/-- How a run is to be done: what is asked for comes before what the configuration says. -/
def runOptions (config : Config) (request : FixRequest) : RunOptions :=
  let codes := if request.codes.isEmpty then config.filters.codes else request.codes
  let names := if request.fixes.isEmpty then config.filters.fixes else request.fixes
  ⟨Filter.rules codes names, request.dryRun || config.run.dryRun, false,
    request.workers.getD config.run.workers⟩

/-- The output of a run: in a dry run the differences, and then the summary. -/
def runOutput (dryRun : Bool) (summary : Summary) : String :=
  let diffs := if dryRun then summary.files.map fun row => printed row.2.diff else []
  String.join diffs ++ printedLines summary.render

/-- Makes fixes. -/
def fix (world : Surroundings) (request : FixRequest) : Reply :=
  withConfig world.tree request.config fun config =>
    withAnalysis world config request.riskyFixes request.paths fun folder response =>
      let options := runOptions config request
      let writer := Run.defaultWriter response.workspace.loader
      let r := Run.complete options Token.never writer [] response.toAnalysis
      let log := heard config.logging request.verbose world.time true r.journal
      let command := response.command.map (·, folder)
      match r.summary with
      | .ok summary =>
        ⟨if summary.hasErrors then 1 else 0, runOutput options.dryRun summary, log,
          r.workspace.tree, command, none⟩
      | .error fault =>
        let (lines, escape) := analysisFailure fault
        { Reply.ofLines r.workspace.tree 1 lines with log, command, escape }

/-- Lists fixes. -/
def list (world : Surroundings) (request : ListRequest) : Reply :=
  withConfig world.tree request.config fun config =>
    withAnalysis world config request.riskyFixes request.paths fun folder response =>
      let r := Listing.ofAnalysis Token.never response.toAnalysis
      let log := heard config.logging request.verbose world.time true r.journal
      let command := response.command.map (·, folder)
      let (code, lines, escape) : Nat × List String × Option Escape := match r.counts with
        | .ok counts =>
          (0, if counts.isEmpty then ["No fixes available."] else Listing.render counts, none)
        | .error (.inl fault) => (1, analysisFailure fault)
        | .error (.inr fault) => (1, [], some (.listing fault))
      { Reply.ofLines r.workspace.tree code lines with log, command, escape }

/-- Writes a first configuration, over one that is there only if that is asked for. -/
def init (tree : FileTree) (request : InitRequest) : Reply :=
  let path := FilePath.ofString request.config
  match tree.exists? path with
  | .error fault => Reply.ofEscape tree (.file fault)
  | .ok found =>
    if found && !request.force then
      Reply.ofLines tree 1
        [s!"Configuration already exists at {path.text}; use --force to overwrite."]
    else match Config.write tree path .null with
      | (.ok (), tree) => Reply.ofLines tree 0 [s!"Wrote default configuration to {path.text}"]
      | (.error fault, tree) => Reply.ofEscape tree (.file fault)

/-- The lines of help. -/
def helpLines : List String :=
  ["Usage: [--help] COMMAND [OPTIONS] [PATHS]...",
   "",
   "Apply the fixes a static analyzer suggests, many files at a time.",
   "",
   "  fix   Apply one suggested fix per diagnostic.",
   "  list  List the available fixes and how many diagnostics each would address.",
   "  init  Write the default configuration file."]

/-- Carries out what a command line asks for. -/
def perform (world : Surroundings) : Invocation → Reply
  | .help => Reply.ofLines world.tree 0 helpLines
  | .fix request => fix world request
  | .list request => list world request
  | .init request => init world.tree request

/-- The exit code for a command line that makes no sense. -/
def usageCode : Nat := 2

end Amend.CommandLine
