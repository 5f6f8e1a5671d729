/-
Checking data for a configuration. Every entry may be left out, no other entry may be there, and all
that is wrong is reported: section by section, in the order of their entries.
-/
import Amend.Code
import Amend.Config
import Amend.Shape

namespace Amend.Config

open Shape

/-- What reports on data that are no configuration call it. -/
def subject : String := "BatchfixConfig"

/-- A list of texts. -/
def textList : Tree → Checked (List String) :=
  list text

/-- A command. Its first word names an executable. -/
def command (t : Tree) : Checked (List String) :=
  (textList t).andThen fun words =>
    if Text.trim (words.headD "") = "" then .fail .refused else .valid words

/-- The name of an analyzer. -/
def tool : Tree → Checked Tool
  | .text s => if s = Tool.ruff.name then .valid .ruff else .fail .notListed
  | _ => .fail .notListed

/-- A list of codes. Whatever stands in it is turned to text and made normal; what cannot be is
refused. What is no list itself, but is taken for one, has to hold texts, and these stay as they are. -/
def codes : Tree → Checked (List String)
  | .list items =>
    if items.any Tree.hasLongNumber then .fail .refused
    else .valid (items.map fun item => Code.normalize item.shown)
  | t => textList t

/-- The name of a level, in any case. -/
def level : Tree → Checked Level
  | .text s => (Level.ofName? (Text.upper s)).elim (.fail .notListed) .valid
  | _ => .fail .notListed

/-- The name of a file, or nothing. -/
def filePath : Tree → Checked (Option FilePath)
  | .null => .valid none
  | .text s => .valid (some (FilePath.ofString s))
  | _ => .fail .notPath

/-- The section on the project. -/
def checkProject : Tree → Checked Project :=
  mapping fun entries => closed ["root", "encoding"] entries <|
    Project.mk
      <$> optional entries "root" default.project.root text
      <*> optional entries "encoding" default.project.encoding text

/-- The section on the analyzer. -/
def checkAnalyzer : Tree → Checked Analyzer :=
  let usual := default.analyzer.settings
  mapping fun entries =>
    closed ["name", "command", "select", "ignore", "extra_args", "unsafe_fixes", "paths"] entries <|
      (fun tool command select ignore extraArgs risky paths =>
          (⟨tool, ⟨command, select, ignore, extraArgs, risky⟩, paths⟩ : Analyzer))
        <$> optional entries "name" default.analyzer.tool tool
        <*> optional entries "command" usual.command command
        <*> optional entries "select" usual.select textList
        <*> optional entries "ignore" usual.ignore textList
        <*> optional entries "extra_args" usual.extraArgs textList
        <*> optional entries "unsafe_fixes" usual.riskyFixes flag
        <*> optional entries "paths" default.analyzer.paths textList

/-- The section on codes and names. -/
def checkFilters : Tree → Checked Choices :=
  mapping fun entries => closed ["codes", "fixes"] entries <|
    Choices.mk
      <$> optional entries "codes" default.filters.codes codes
      <*> optional entries "fixes" default.filters.fixes textList

/-- The section on the work. -/
def checkRun : Tree → Checked Pace :=
  mapping fun entries => closed ["workers", "dry_run"] entries <|
    Pace.mk
      <$> optional entries "workers" default.run.workers (intFrom 1)
      <*> optional entries "dry_run" default.run.dryRun flag

/-- The section on logging. -/
def checkLogging : Tree → Checked Logging :=
  mapping fun entries => closed ["level", "telemetry"] entries <|
    Logging.mk
      <$> optional entries "level" default.logging.level level
      <*> optional entries "telemetry" default.logging.telemetry flag

/-- Checks data for a configuration. -/
def check : Tree → Checked Config :=
  mapping fun entries =>
    closed ["project", "analyzer", "filters", "run", "logging", "config_path"] entries <|
      Config.mk
        <$> optional entries "project" default.project checkProject
        <*> optional entries "analyzer" default.analyzer checkAnalyzer
        <*> optional entries "filters" default.filters checkFilters
        <*> optional entries "run" default.run checkRun
        <*> optional entries "logging" default.logging checkLogging
        <*> optional entries "config_path" default.path filePath

end Amend.Config
