/-
The commands and their options: making fixes, listing them, and writing a first configuration.
-/
import Amend.CommandLine.Arguments
import Amend.Config
import Amend.Numeral

namespace Amend.CommandLine

/-- What is asked of the command that makes fixes. -/
structure FixRequest where
  config : String
  paths : List String
  codes : List String
  fixes : List String
  dryRun : Bool
  workers : Option Int
  riskyFixes : Bool
  verbose : Bool
  deriving DecidableEq, Repr

/-- What is asked of the command that lists fixes. -/
structure ListRequest where
  config : String
  paths : List String
  riskyFixes : Bool
  verbose : Bool
  deriving DecidableEq, Repr

/-- What is asked of the command that writes a first configuration. -/
structure InitRequest where
  config : String
  force : Bool
  deriving DecidableEq, Repr

/-- What a command line asks for. -/
inductive Invocation where
  | help
  | fix (request : FixRequest)
  | list (request : ListRequest)
  | init (request : InitRequest)
  deriving DecidableEq, Repr

/-! ## Options -/

/-- The option that asks for help. -/
def helpSwitch : Switch := ⟨"help", none, false⟩

/-- The option that names the configuration file. -/
def configSwitch : Switch := ⟨"config", some 'c', true⟩

/-- The option that lets fixes of every applicability in, short of those for display. -/
def riskySwitch : Switch := ⟨"unsafe-fixes", none, false⟩

/-- The option that has everything said. -/
def verboseSwitch : Switch := ⟨"verbose", some 'v', false⟩

/-- The options of the command that makes fixes. -/
def fixSwitches : List Switch :=
  [configSwitch, ⟨"errors", some 'e', true⟩, ⟨"fixes", some 'f', true⟩, ⟨"dry-run", none, false⟩,
   ⟨"workers", some 'w', true⟩, riskySwitch, verboseSwitch, helpSwitch]

/-- The options of the command that lists fixes. -/
def listSwitches : List Switch :=
  [configSwitch, riskySwitch, verboseSwitch, helpSwitch]

/-- The options of the command that writes a first configuration. -/
def initSwitches : List Switch :=
  [configSwitch, ⟨"force", none, false⟩, helpSwitch]

/-! ## Values -/

/-- The number of workers, which is one at least. -/
def workers (a : Arguments) : Except UsageFault (Option Int) :=
  match a.last? "workers" with
  | none => .ok none
  | some s =>
    match Numeral.read s with
    | .ok n => if 1 ≤ n then .ok (some n) else .error (.badValue "workers" s)
    | .error _ => .error (.badValue "workers" s)

/-- The name of the configuration file. -/
def configName (a : Arguments) : String :=
  (a.last? configSwitch.name).getD Config.fileName

namespace Invocation

/-- The command that makes fixes, by its words. -/
def ofFix (words : List String) : Except UsageFault Invocation := do
  let a ← Arguments.ofWords fixSwitches true words
  if a.has helpSwitch.name then return .help
  let workers ← workers a
  return .fix ⟨configName a, a.rest, a.all "errors", a.all "fixes", a.has "dry-run", workers,
    a.has riskySwitch.name, a.has verboseSwitch.name⟩

/-- The command that lists fixes, by its words. -/
def ofList (words : List String) : Except UsageFault Invocation := do
  let a ← Arguments.ofWords listSwitches true words
  if a.has helpSwitch.name then return .help
  return .list ⟨configName a, a.rest, a.has riskySwitch.name, a.has verboseSwitch.name⟩

/-- The command that writes a first configuration, by its words. It has no arguments. -/
def ofInit (words : List String) : Except UsageFault Invocation := do
  let a ← Arguments.ofWords initSwitches true words
  if a.has helpSwitch.name then return .help
  match a.rest with
  | [] => return .init ⟨configName a, a.has "force"⟩
  | argument :: _ => .error (.extraArgument argument)

/-- What a command line asks for. Options before the command are those of the program. -/
def ofWords (words : List String) : Except UsageFault Invocation := do
  let a ← Arguments.ofWords [helpSwitch] false words
  if a.has helpSwitch.name then return .help
  match a.rest with
  | [] => .error .commandMissing
  | name :: rest =>
    if name = "fix" then ofFix rest
    else if name = "list" then ofList rest
    else if name = "init" then ofInit rest
    else .error (.unknownCommand name)

end Invocation

end Amend.CommandLine
