/-
How the analyzer is called.
-/
namespace Amend.Report

/-- The settings of the analyzer. -/
structure Settings where
  command : List String
  select : List String
  ignore : List String
  extraArgs : List String
  riskyFixes : Bool
  deriving DecidableEq, Repr

/-- The settings when nothing is said. -/
def Settings.default : Settings :=
  ⟨["ruff"], [], [], [], false⟩

/-- The command line for some files or folders, which are the current folder if none is named. -/
def Settings.commandLine (s : Settings) (paths : List String) : List String :=
  s.command ++ ["check", "--output-format", "json", "--no-fix", "--exit-zero"]
    ++ (if s.select.isEmpty then [] else ["--select", ",".intercalate s.select])
    ++ (if s.ignore.isEmpty then [] else ["--ignore", ",".intercalate s.ignore])
    ++ (if s.riskyFixes then ["--unsafe-fixes"] else [])
    ++ s.extraArgs
    ++ (if paths.isEmpty then ["."] else paths)

/-- What a program that was run left behind. -/
structure Finished where
  stdout : String
  code : Int
  stderr : String
  deriving DecidableEq, Repr

end Amend.Report
