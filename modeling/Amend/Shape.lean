/-
Checking the shape of data. A check either gives a value or the list of all that is wrong, each
issue with the place it was found at. Numbers and flags may be given in several spellings.
-/
import Amend.Numeral
import Amend.Tree

namespace Amend.Shape

/-- One step into data: to an entry of a mapping or an item of a list. -/
inductive Step where
  | name (s : String)
  | index (i : Int)
  deriving DecidableEq, Repr

/-- What is wrong with a piece of data. -/
inductive IssueKind where
  | notText
  | notList
  | notMapping
  | notListed
  | notPath
  | missing
  | unknownKey
  | badKey
  | refused
  | hasFraction
  | notFinite
  | numberTooLarge
  | notNumeral
  | notInt
  | tooSmall
  | notFlag
  | notBool
  deriving DecidableEq, Repr

/-- The name of a kind of issue in reports. -/
def IssueKind.name : IssueKind → String
  | .notText => "string_type"
  | .notList => "list_type"
  | .notMapping => "model_type"
  | .notListed => "literal_error"
  | .notPath => "path_type"
  | .missing => "missing"
  | .unknownKey => "extra_forbidden"
  | .badKey => "invalid_key"
  | .refused => "value_error"
  | .hasFraction => "int_from_float"
  | .notFinite => "finite_number"
  | .numberTooLarge => "int_parsing_size"
  | .notNumeral => "int_parsing"
  | .notInt => "int_type"
  | .tooSmall => "greater_than_equal"
  | .notFlag => "bool_parsing"
  | .notBool => "bool_type"

/-- Something wrong, and where. -/
structure Issue where
  place : List Step
  kind : IssueKind
  deriving DecidableEq, Repr

/-- The count of issues, as a report's first line has it. -/
def headline (issues : List Issue) (subject : String) : String :=
  let noun := if issues.length = 1 then "error" else "errors"
  s!"{issues.length} validation {noun} for {subject}"

/-- A value, or all that is wrong with the data. -/
inductive Checked (α : Type) where
  | valid (a : α)
  | invalid (issues : List Issue)
  deriving Repr

namespace Checked

/-- The issues of a check. -/
def issues {α : Type} : Checked α → List Issue
  | .valid _ => []
  | .invalid issues => issues

/-- A check that fails with one issue, here. -/
def fail {α : Type} (kind : IssueKind) : Checked α :=
  .invalid [⟨[], kind⟩]

instance : Functor Checked where
  map f
    | .valid a => .valid (f a)
    | .invalid issues => .invalid issues

instance : Applicative Checked where
  pure := .valid
  seq f a := match f, a () with
    | .valid f, .valid a => .valid (f a)
    | f, a => .invalid (f.issues ++ a.issues)

/-- The check of a part of the data: its issues are found one step further in. -/
def within {α : Type} (step : Step) : Checked α → Checked α
  | .valid a => .valid a
  | .invalid issues => .invalid (issues.map fun issue => { issue with place := step :: issue.place })

/-- A check that looks at the value of another one that went well. -/
def andThen {α β : Type} (check : Checked α) (next : α → Checked β) : Checked β :=
  match check with
  | .valid a => next a
  | .invalid issues => .invalid issues

/-- A value, or the issues. -/
def toExcept {α : Type} : Checked α → Except (List Issue) α
  | .valid a => .ok a
  | .invalid issues => .error issues

end Checked

/-! ## Plain values -/

/-- A text. -/
def text : Tree → Checked String
  | .text s => .valid s
  | _ => .fail .notText

/-- Nothing, or what the other check takes. -/
def orNull {α : Type} (check : Tree → Checked α) : Tree → Checked (Option α)
  | .null => .valid none
  | t => some <$> check t

/-- The bound of what a machine word holds. -/
def wordBound : Nat := 0x8000000000000000

/-- Does a machine word hold the number? -/
def fitsWord (n : Int) : Bool :=
  -(wordBound : Int) ≤ n && n < wordBound

/-- A whole number: as such, as a flag, as a number without a fraction, or as a numeral. -/
def int : Tree → Checked Int
  | .int n => .valid n
  | .bool b => .valid (if b then 1 else 0)
  | .float x =>
    if !x.isFinite then .fail .notFinite
    else match x.toInt? with
      | none => .fail .hasFraction
      | some n => if n.natAbs < wordBound then .valid n else .fail .numberTooLarge
  | .text s => match Numeral.read s with
    | .ok n => .valid n
    | .error .malformed => .fail .notNumeral
    | .error .tooLong => .fail .numberTooLarge
  | _ => .fail .notInt

/-- A whole number that is at least `least`. -/
def intFrom (least : Int) (t : Tree) : Checked Int :=
  (int t).andThen fun n => if n < least then .fail .tooSmall else .valid n

/-- The words for no. -/
def noWords : List String := ["0", "off", "f", "false", "n", "no"]

/-- The words for yes. -/
def yesWords : List String := ["1", "on", "t", "true", "y", "yes"]

/-- A flag by its number, zero or one; `inRange` tells whether the number is one of those that are
looked at. -/
def numberFlag (inRange : Bool) (n : Int) : Checked Bool :=
  if n = 0 then .valid false
  else if n = 1 then .valid true
  else if inRange then .fail .notFlag
  else .fail .notBool

/-- A flag: as such, as zero or one, or as one of the words for yes and no. -/
def flag : Tree → Checked Bool
  | .bool b => .valid b
  | .int n => numberFlag (fitsWord n) n
  | .float x => match x.toInt? with
    | some n => numberFlag (n.natAbs < wordBound) n
    | none => .fail .notBool
  | .text s =>
    let word := s.toLower
    if noWords.contains word then .valid false
    else if yesWords.contains word then .valid true
    else .fail .notFlag
  | _ => .fail .notBool

/-! ## Lists and mappings -/

/-- Items from index `i` on. -/
def itemsFrom {α : Type} (check : Tree → Checked α) : Int → List Tree → Checked (List α)
  | _, [] => .valid []
  | i, t :: rest => List.cons <$> (check t).within (.index i) <*> itemsFrom check (i + 1) rest

/-- A list. A tuple or a set is taken for one. -/
def list {α : Type} (check : Tree → Checked α) : Tree → Checked (List α)
  | .list items => itemsFrom check 0 items
  | .tuple items => itemsFrom check 0 items
  | .set items => itemsFrom check 0 items
  | _ => .fail .notList

/-- The entries of a mapping. -/
abbrev Entries := List (Tree × Tree)

/-- A mapping whose entries another check looks at. -/
def mapping {α : Type} (check : Entries → Checked α) : Tree → Checked α
  | .map entries => check entries
  | _ => .fail .notMapping

/-- An entry that may be left out. -/
def optional {α : Type} (entries : Entries) (name : String) (default : α)
    (check : Tree → Checked α) : Checked α :=
  match Tree.entry? name entries with
  | none => .valid default
  | some t => (check t).within (.name name)

/-- An entry that has to be there. -/
def required {α : Type} (entries : Entries) (name : String) (check : Tree → Checked α) : Checked α :=
  match Tree.entry? name entries with
  | none => (Checked.fail .missing).within (.name name)
  | some t => (check t).within (.name name)

/-- The step to an entry whose key is no text. -/
def keyStep : Tree → Step
  | .int n =>
    if fitsWord n then .index n
    else if Decimal.isTooLong n then .name "<unprintable int object>"
    else .name (toString n)
  | .bool b => .index (if b then 1 else 0)
  | t => .name t.literal

/-- The issues with keys that are not among the known ones. -/
def strangers (known : List String) (entries : Entries) : List Issue :=
  entries.filterMap fun row => match row.1 with
    | .text s => if known.contains s then none else some ⟨[.name s], .unknownKey⟩
    | key => some ⟨[keyStep key], .badKey⟩

/-- A check that also refuses keys that are not among the known ones. -/
def closed {α : Type} (known : List String) (entries : Entries) (check : Checked α) : Checked α :=
  match strangers known entries with
  | [] => check
  | issues => .invalid (check.issues ++ issues)

end Amend.Shape
