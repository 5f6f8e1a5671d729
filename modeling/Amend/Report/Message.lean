/-
The report of the analyzer: a JSON array of messages, each with a place and perhaps a fix.
-/
import Amend.Json.Reader
import Amend.Shape
import Amend.Text.Blank

namespace Amend.Report

/-- A row and a column, counted from one. -/
structure Location where
  row : Int
  column : Int
  deriving DecidableEq, Repr

/-- A replacement of the text between two places. -/
structure ReportEdit where
  content : String
  start : Location
  stop : Location
  deriving DecidableEq, Repr

/-- How far a fix can be trusted. -/
inductive Applicability where
  | safe
  | risky
  | displayOnly
  deriving DecidableEq, Repr

/-- The word for a degree of trust in reports. -/
def Applicability.word : Applicability → String
  | .safe => "safe"
  | .risky => "unsafe"
  | .displayOnly => "display-only"

/-- A fix as it is reported. -/
structure ReportFix where
  applicability : Applicability
  message : Option String
  edits : List ReportEdit
  deriving DecidableEq, Repr

/-- One message of a report. -/
structure Message where
  code : Option String
  filename : Option String
  message : String
  start : Location
  stop : Location
  fix : Option ReportFix
  url : Option String
  deriving DecidableEq, Repr

/-! ## Shapes -/

open Shape

/-- The shape of a place. -/
def location : Tree → Checked Location :=
  mapping fun entries => Location.mk <$> required entries "row" int <*> required entries "column" int

/-- The shape of a replacement. -/
def reportEdit : Tree → Checked ReportEdit :=
  mapping fun entries => ReportEdit.mk
    <$> optional entries "content" "" text
    <*> required entries "location" location
    <*> required entries "end_location" location

/-- The degrees of trust, by their words. -/
def applicability (t : Tree) : Checked Applicability :=
  match t with
  | .text s =>
    match [Applicability.safe, .risky, .displayOnly].find? (·.word = s) with
    | some a => .valid a
    | none => .fail .notListed
  | _ => .fail .notListed

/-- The shape of a fix. -/
def reportFix : Tree → Checked ReportFix :=
  mapping fun entries => ReportFix.mk
    <$> optional entries "applicability" .safe applicability
    <*> optional entries "message" none (orNull text)
    <*> optional entries "edits" [] (list reportEdit)

/-- The shape of a message. Entries that are not asked for are passed over. -/
def message : Tree → Checked Message :=
  mapping fun entries => Message.mk
    <$> optional entries "code" none (orNull text)
    <*> optional entries "filename" none (orNull text)
    <*> optional entries "message" "" text
    <*> required entries "location" location
    <*> required entries "end_location" location
    <*> optional entries "fix" none (orNull reportFix)
    <*> optional entries "url" none (orNull text)

/-! ## Reading -/

/-- Why an output is no report. -/
inductive ReportFault where
  | notJson (misfit : Json.Misfit) (output : String)
  | badShape (issues : List Issue)
  deriving DecidableEq, Repr

/-- The fault in words. -/
def ReportFault.message : ReportFault → String
  | .notJson e output => s!"Ruff produced invalid JSON: {e.message output}"
  | .badShape issues => "Unexpected ruff report shape: " ++ headline issues "list[RuffMessage]"

/-- Why an output gave no messages. -/
inductive ParseFault where
  | unreadable (fault : ReportFault)
  /-- A whole number has too many digits, whatever the rest of the output is. -/
  | longNumber (digits : Nat)
  deriving DecidableEq, Repr

/-- The fault in words. -/
def ParseFault.message : ParseFault → String
  | .unreadable fault => fault.message
  | .longNumber digits => Decimal.tooManyDigits digits

/-- The messages of a report. A blank output is a report without messages. -/
def parse (output : String) : Except ParseFault (List Message) :=
  if Text.isBlankText output then .ok []
  else match Json.read output with
    | .error (.notJson misfit) => .error (.unreadable (.notJson misfit output))
    | .error (.longNumber digits) => .error (.longNumber digits)
    | .ok json =>
      match list message (Tree.ofJson json) with
      | .valid messages => .ok messages
      | .invalid issues => .error (.unreadable (.badShape issues))

end Amend.Report
