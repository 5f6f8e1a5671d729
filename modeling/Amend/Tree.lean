/-
Plain data: what a report or a configuration file holds before its shape is checked, or a caller
hands over in its place. A mapping keeps the order of its keys, and the last of several equal keys
gives the value. A set comes with its items in the order in which they are gone through.
-/
import Amend.Calendar
import Amend.Decimal.Limit
import Amend.Decimal.Shortest
import Amend.Json.Value
import Amend.Text.Quoted

namespace Amend

/-- Plain data. -/
inductive Tree where
  | null
  | bool (b : Bool)
  | int (n : Int)
  | float (x : Double)
  | text (s : String)
  | date (d : Date)
  | moment (m : Moment)
  | list (items : List Tree)
  | tuple (items : List Tree)
  | set (items : List Tree)
  | map (entries : List (Tree × Tree))
  deriving Repr

namespace Tree

mutual

/-- A value as it stands inside a list or a mapping. -/
def literal : Tree → String
  | .null => "None"
  | .bool b => if b then "True" else "False"
  | .int n => toString n
  | .float x => x.text
  | .text s => Text.quoted s
  | .date d => d.literal
  | .moment m => m.literal
  | .list items => "[" ++ literalItems items ++ "]"
  | .tuple items => "(" ++ literalItems items ++ (if items.length = 1 then ",)" else ")")
  | .set items => if items.isEmpty then "set()" else "\x7b" ++ literalItems items ++ "\x7d"
  | .map entries => "\x7b" ++ literalEntries entries ++ "\x7d"

/-- Items divided by commas. -/
def literalItems : List Tree → String
  | [] => ""
  | [item] => literal item
  | item :: next :: rest => literal item ++ ", " ++ literalItems (next :: rest)

/-- The entries of a mapping, divided by commas. -/
def literalEntries : List (Tree × Tree) → String
  | [] => ""
  | [(key, value)] => literal key ++ ": " ++ literal value
  | (key, value) :: next :: rest =>
    literal key ++ ": " ++ literal value ++ ", " ++ literalEntries (next :: rest)

end

/-- The text of a value: a text is itself, and all else is written as a literal. -/
def shown : Tree → String
  | .text s => s
  | .date d => d.text
  | .moment m => m.text
  | t => t.literal

mutual

/-- The data of a JSON value. -/
def ofJson : Json → Tree
  | .null => .null
  | .bool b => .bool b
  | .int n => .int n
  | .num x => .float x
  | .str s => .text s
  | .arr items => .list (ofJsonItems items)
  | .obj fields => .map (ofJsonFields fields)

/-- The data of the items of an array. -/
def ofJsonItems : List Json → List Tree
  | [] => []
  | item :: rest => ofJson item :: ofJsonItems rest

/-- The data of the fields of an object. -/
def ofJsonFields : List (String × Json) → List (Tree × Tree)
  | [] => []
  | (name, value) :: rest => (.text name, ofJson value) :: ofJsonFields rest

end

mutual

/-- Does a value hold a whole number with too many digits to be written? -/
def hasLongNumber : Tree → Bool
  | .int n => Decimal.isTooLong n
  | .list items => itemsHaveLongNumber items
  | .tuple items => itemsHaveLongNumber items
  | .set items => itemsHaveLongNumber items
  | .map entries => entriesHaveLongNumber entries
  | _ => false

/-- Does one of several values hold such a number? -/
def itemsHaveLongNumber : List Tree → Bool
  | [] => false
  | item :: rest => hasLongNumber item || itemsHaveLongNumber rest

/-- Does one of several entries hold such a number? -/
def entriesHaveLongNumber : List (Tree × Tree) → Bool
  | [] => false
  | (key, value) :: rest => hasLongNumber key || hasLongNumber value || entriesHaveLongNumber rest

end

/-- The number that a key counts as: flags count as zero and one. -/
def keyNumber? : Tree → Option Quantity
  | .bool b => some (.whole (if b then 1 else 0))
  | .int n => some (.whole n)
  | .float x => some x.quantity
  | _ => none

/-- Do two keys name the same entry of a mapping? Numbers do that are equal, whatever their kind. No
file has other keys than scalars. -/
def sameKey (a b : Tree) : Bool :=
  match a, b with
  | .text s, .text t => s = t
  | .null, .null => true
  | .date d, .date e => d = e
  | .moment m, .moment n => m.sameInstant n
  | _, _ =>
    match a.keyNumber?, b.keyNumber? with
    | some x, some y => x = y
    | _, _ => false

/-- Sets an entry; an entry with the same key keeps its place and its key. -/
def putEntry : List (Tree × Tree) → Tree → Tree → List (Tree × Tree)
  | [], key, value => [(key, value)]
  | (k, v) :: rest, key, value =>
    if k.sameKey key then (k, value) :: rest else (k, v) :: putEntry rest key value

/-- The value of a text key. -/
def entry? (name : String) (entries : List (Tree × Tree)) : Option Tree :=
  (entries.find? fun row => match row.1 with
    | .text s => s = name
    | _ => false).map (·.2)

end Tree

end Amend
