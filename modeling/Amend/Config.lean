/-
The configuration of a run, its default, and the plain data that stand for it.
-/
import Amend.Files.Tree
import Amend.Journal
import Amend.Report.Command
import Amend.Tree

namespace Amend

/-- Where the project is, and how its files are encoded. -/
structure Project where
  root : String
  encoding : String
  deriving DecidableEq, Repr

/-- The analyzers that can be named. -/
inductive Tool where
  | ruff
  deriving DecidableEq, Repr

/-- The name of an analyzer. -/
def Tool.name : Tool → String
  | .ruff => "ruff"

/-- The analyzer, its settings, and what it looks at if nothing else is asked for. -/
structure Analyzer where
  tool : Tool
  settings : Report.Settings
  paths : List String
  deriving DecidableEq, Repr

/-- The codes and names that findings and fixes are chosen by. -/
structure Choices where
  codes : List String
  fixes : List String
  deriving DecidableEq, Repr

/-- How a run goes about its work. -/
structure Pace where
  workers : Int
  dryRun : Bool
  deriving DecidableEq, Repr

/-- What is said aloud. -/
structure Logging where
  level : Level
  telemetry : Bool
  deriving DecidableEq, Repr

/-- A configuration, and the file it was read from. -/
structure Config where
  project : Project
  analyzer : Analyzer
  filters : Choices
  run : Pace
  logging : Logging
  path : Option FilePath
  deriving DecidableEq, Repr

namespace Config

/-- The configuration when nothing is said. -/
def default : Config :=
  ⟨⟨".", "utf-8"⟩, ⟨.ruff, Report.Settings.default, []⟩, ⟨[], []⟩, ⟨1, false⟩, ⟨.info, false⟩, none⟩

/-- The name of the file that a configuration is looked for in. -/
def fileName : String := "batchfix.yaml"

/-- A list of texts as data. -/
def texts (items : List String) : Tree :=
  .list (items.map .text)

/-- A section as data. -/
def group (entries : List (String × Tree)) : Tree :=
  .map (entries.map fun row => (.text row.1, row.2))

/-- A configuration as data. The file it was read from is not part of them. -/
def toTree (c : Config) : Tree :=
  let s := c.analyzer.settings
  group
    [("project", group
      [("root", .text c.project.root), ("encoding", .text c.project.encoding)]),
     ("analyzer", group
      [("name", .text c.analyzer.tool.name), ("command", texts s.command),
       ("select", texts s.select), ("ignore", texts s.ignore), ("extra_args", texts s.extraArgs),
       ("unsafe_fixes", .bool s.riskyFixes), ("paths", texts c.analyzer.paths)]),
     ("filters", group
      [("codes", texts c.filters.codes), ("fixes", texts c.filters.fixes)]),
     ("run", group
      [("workers", .int c.run.workers), ("dry_run", .bool c.run.dryRun)]),
     ("logging", group
      [("level", .text c.logging.level.name), ("telemetry", .bool c.logging.telemetry)])]

/-- The folder of the project. A relative one starts at the folder of the configuration's file, or
at the current folder if there is no such file. -/
def rootFolder (c : Config) (cwd : List String) : Except FileFault FilePath :=
  let root := FilePath.ofString c.project.root
  if root.isAbsolute then .ok root
  else
    let start : FilePath := c.path.elim ⟨1, cwd⟩ FilePath.parent
    let folder := start.join root
    if folder.hasNul then .error .zeroByte else .ok (folder.resolve cwd)

end Config

end Amend
