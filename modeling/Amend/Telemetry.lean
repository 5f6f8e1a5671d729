/-
Telemetry: structured events, each logged as one line of JSON.
-/
import Amend.FilePath
import Amend.Json.Writer
import Amend.Outcome
import Amend.Text.Quoted

namespace Amend.Telemetry

/-- A value that an event may carry. -/
inductive Value where
  | null
  | bool (b : Bool)
  | int (n : Int)
  | num (x : Double)
  | str (s : String)
  | path (p : FilePath)
  | outcome (o : Outcome)
  /-- A named constant: its label, and the plain value it stands for. -/
  | constant (label : String) (plain : Value)
  | seq (items : List Value)
  | mapping (entries : List (Value × Value))
  /-- Anything else, known by its text only. -/
  | other (text : String)
  deriving Repr

namespace Value

/-- A constant inside a larger value: its label and what it stands for. -/
def constantLiteral (label plain : String) : String :=
  "<" ++ label ++ ": " ++ plain ++ ">"

mutual

/-- The text that a value has inside a larger one. -/
def literal : Value → String
  | .str s => Text.quoted s
  | .seq items => "(" ++ literalItems items ++ ")"
  | .null => "None"
  | .bool b => if b then "True" else "False"
  | .int n => toString n
  | .num x => x.text
  | .path p => "PosixPath(" ++ Text.quoted p.text ++ ")"
  | .outcome o => constantLiteral o.label (Text.quoted o.name)
  | .constant label plain => constantLiteral label (literal plain)
  | .mapping _ => "\x7b\x7d"
  | .other text => text

/-- Texts of several values, divided by commas; a single one is followed by one. -/
def literalItems : List Value → String
  | [] => ""
  | [item] => literal item ++ ","
  | [item, last] => literal item ++ ", " ++ literal last
  | item :: next :: rest => literal item ++ ", " ++ literalItems (next :: rest)

end

/-- The text of a value that serves as a key. -/
def keyText : Value → String
  | .str s => s
  | .path p => p.text
  | .outcome o => o.label
  | .constant label _ => label
  | v => v.literal

/-- The number that a key counts as: flags count as zero and one. -/
def keyNumber? : Value → Option Quantity
  | .bool b => some (.whole (if b then 1 else 0))
  | .int n => some (.whole n)
  | .num x => some x.quantity
  | _ => none

/-- The string that a key counts as: an outcome counts as its name. -/
def keyString? : Value → Option String
  | .str s => some s
  | .outcome o => some o.name
  | _ => none

mutual

/-- Do two keys name the same entry? Sequences do whose items do. -/
def sameKey : Value → Value → Bool
  | .null, .null => true
  | .path p, .path q => p = q
  | .constant l _, .constant m _ => l = m
  | .seq xs, .seq ys => sameItems xs ys
  | a, b =>
    match a.keyNumber?, b.keyNumber?, a.keyString?, b.keyString? with
    | some x, some y, _, _ => x = y
    | _, _, some s, some t => s = t
    | _, _, _, _ => false

/-- Do items name the same entries, one by one? -/
def sameItems : List Value → List Value → Bool
  | [], [] => true
  | x :: xs, y :: ys => sameKey x y && sameItems xs ys
  | _, _ => false

end

/-- Sets an entry; an entry with the same key keeps its place and its key. -/
def putEntry : List (Value × Value) → Value → Value → List (Value × Value)
  | [], key, value => [(key, value)]
  | (k, v) :: rest, key, value =>
    if k.sameKey key then (k, value) :: rest else (k, v) :: putEntry rest key value

/-- A mapping from entries set one after the other. -/
def ofEntries (entries : List (Value × Value)) : Value :=
  .mapping (entries.foldl (fun done entry => putEntry done entry.1 entry.2) [])

mutual

/-- The JSON value that stands for a value. Sequences of all kinds become arrays, keys become
their texts, and of several keys with one text the last gives the value. -/
def toJson : Value → Json
  | .null => .null
  | .bool b => .bool b
  | .int n => .int n
  | .num x => .num x
  | .str s => .str s
  | .path p => .str p.text
  | .outcome o => .str o.name
  | .constant _ plain => toJson plain
  | .seq items => .arr (toJsonItems items)
  | .mapping entries => .obj (toJsonFields entries [])
  | .other text => .str text

/-- The items of a sequence. -/
def toJsonItems : List Value → List Json
  | [] => []
  | item :: rest => toJson item :: toJsonItems rest

/-- The entries of a mapping, added to those set before. -/
def toJsonFields : List (Value × Value) → List (String × Json) → List (String × Json)
  | [], done => done
  | (key, v) :: rest, done => toJsonFields rest (Table.put done key.keyText (toJson v))

end

end Value

/-- The fields of an event, in order. -/
abbrev Fields := Table String Value

/-- The line of an event: its name, the time, then its fields. A field that is called like the
time takes its place. -/
def line (time name : String) (fields : Fields) : String :=
  let head : List (String × Json) := [("event", .str name), ("timestamp", .str time)]
  Json.write (.obj (fields.foldl (fun done row => Table.put done row.1 row.2.toJson) head))

/-- A finding as a field: its file is not repeated. -/
def ofDiagnostic (d : Diagnostic) : Value :=
  .mapping [(.str "code", .str d.code), (.str "start", .int d.start), (.str "length", .int d.length),
    (.str "message", .str d.message)]

/-- The fields of an outcome event. -/
def ofEvent (event : Event) : Fields :=
  [("path", event.path.elim .null .str), ("outcome", .str event.outcome.name),
   ("detail", .str event.detail)]
    ++ (event.diagnostic.elim [] fun d => [("diagnostic", ofDiagnostic d)])

end Amend.Telemetry
