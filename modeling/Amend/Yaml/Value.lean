/-
The values of nodes. A plain scalar that looks like a number, a flag, a day or nothing is one;
every other scalar is a text. Of several values that cannot be, the one nearest to the root is
reported, and of those equally near the first.
-/
import Amend.Text.Digit
import Amend.Tree
import Amend.Yaml.Node

namespace Amend.Yaml

/-- The result of a plain scalar that has to be a certain kind of value. -/
abbrev Resolved := Except Fault Tree

/-! ## Numbers -/

/-- A digit or the underscore that may stand among digits. -/
def isLoose (digit : Char → Bool) (c : Char) : Bool :=
  digit c || c = '_'

/-- The sign of a numeral and what follows it. -/
def signed (cs : List Char) : Bool × List Char :=
  match cs with
  | '-' :: rest => (true, rest)
  | '+' :: rest => (false, rest)
  | rest => (false, rest)

/-- The number of digits in a base, underscores being passed over. -/
def inBase (base : Nat) (cs : List Char) : Nat :=
  (cs.filterMap Text.hexValue?).foldl (fun n d => n * base + d) 0

/-- The digits of a numeral with a base mark; a mark without digits is no number. -/
def markedInt (base : Nat) (digits : List Char) : Resolved :=
  if digits.all (· = '_') then
    .error (.impossible s!"invalid literal for int() with base {base}: ''")
  else .ok (.int (inBase base digits))

/-- The number of decimal digits, underscores being passed over; there may be too many of them. -/
def decimalInt (digits : List Char) : Resolved :=
  let count := (digits.filter Text.isPlainDigit).length
  if Decimal.mostDigits < count then .error (.impossible (Decimal.tooManyDigits count))
  else .ok (.int (inBase 10 digits))

/-- The parts of a text between its colons. -/
def colonParts (cs : List Char) : List (List Char) :=
  match cs with
  | [] => [[]]
  | c :: rest => match colonParts rest with
    | [] => [[c]]
    | part :: more => if c = ':' then [] :: part :: more else (c :: part) :: more

/-- Parts of a number in base sixty after the first. -/
def isSixtieth (cs : List Char) : Bool :=
  match cs with
  | [a] => Text.isPlainDigit a
  | [a, b] => '0' ≤ a && a ≤ '5' && Text.isPlainDigit b
  | _ => false

/-- The whole number that digits without their sign write. -/
def unsignedInt? (cs : List Char) : Option Resolved :=
  match cs with
  | '0' :: 'b' :: digits =>
    if !digits.isEmpty && digits.all (isLoose fun c => c = '0' || c = '1') then
      some (markedInt 2 digits)
    else none
  | '0' :: 'x' :: digits =>
    if !digits.isEmpty && digits.all (isLoose fun c => (Text.hexValue? c).isSome) then
      some (markedInt 16 digits)
    else none
  | ['0'] => some (.ok (.int 0))
  | '0' :: digits =>
    if digits.all (isLoose fun c => '0' ≤ c && c ≤ '7') then some (.ok (.int (inBase 8 digits)))
    else none
  | first :: digits =>
    if !('1' ≤ first && first ≤ '9') then none
    else if digits.all (isLoose Text.isPlainDigit) then some (decimalInt cs)
    else match colonParts cs with
      | head :: more =>
        if head.all (isLoose Text.isPlainDigit) && !more.isEmpty && more.all isSixtieth then
          some ((decimalInt head).map fun t => match t with
            | .int first => .int (more.foldl (fun n part => n * 60 + inBase 10 part) first)
            | t => t)
        else none
      | [] => none
  | [] => none

/-- The whole number that a scalar writes. -/
def int? (cs : List Char) : Option Resolved :=
  let (negative, body) := signed cs
  (unsignedInt? body).map fun r => r.map fun t => match t with
    | .int n => .int (if negative then -n else n)
    | t => t

/-- The exponent of a number, which needs a sign and digits; nothing is the exponent zero. -/
def exponent? (cs : List Char) : Option Int :=
  match cs with
  | [] => some 0
  | e :: sign :: digits =>
    if (e = 'e' || e = 'E') && (sign = '+' || sign = '-') && !digits.isEmpty
        && digits.all Text.isPlainDigit then
      let n : Int := Text.plainNumber digits
      some (if sign = '-' then -n else n)
    else none
  | _ => none

/-- The number that digits around a point and an exponent write. A sign needs a digit before the
point, and without one there has to be a digit right after it. -/
def decimal? (cs : List Char) : Option Double :=
  let (negative, body) := signed cs
  let whole := body.takeWhile (isLoose Text.isPlainDigit)
  match body.drop whole.length with
  | '.' :: rest =>
    let part := rest.takeWhile (isLoose Text.isPlainDigit)
    let wellFormed := match whole, part with
      | first :: _, _ => Text.isPlainDigit first
      | [], first :: _ => Text.isPlainDigit first && body.length = cs.length
      | [], [] => false
    if !wellFormed then none
    else (exponent? (rest.drop part.length)).map fun exponent =>
      let digits := part.filter Text.isPlainDigit
      Double.ofDecimal negative (inBase 10 (whole ++ digits)) (exponent - digits.length)
  | _ => none

/-- The sum of numbers, the first of which counts once, the next sixty times, and so on. -/
def sixtyfold (parts : List Double) : Double :=
  (parts.foldl (fun (done : Double × Int) part =>
    (done.1.add (part.mul (Double.ofInt done.2)), done.2 * 60)) (Double.zero false, 1)).1

/-- The number that parts in base sixty write, a point being in the last. -/
def sixties? (cs : List Char) : Option Double :=
  let (negative, body) := signed cs
  let whole := body.takeWhile (· ≠ '.')
  match colonParts whole, body.drop whole.length with
  | head :: more, '.' :: fraction =>
    if head.head?.any Text.isPlainDigit && head.all (isLoose Text.isPlainDigit) && !more.isEmpty
        && more.all isSixtieth && fraction.all (isLoose Text.isPlainDigit) then
      let digits := fraction.filter Text.isPlainDigit
      let last := Double.ofDecimal false (inBase 10 (more.getLastD [] ++ digits)) (-digits.length)
      let others := (head :: more).dropLast.map fun part => Double.ofDecimal false (inBase 10 part) 0
      let x := sixtyfold (last :: others.reverse)
      some (if negative then x.neg else x)
    else none
  | _, _ => none

/-- The number with a point that a scalar writes. -/
def float? (cs : List Char) : Option Double :=
  let s := String.ofList cs
  let (negative, body) := signed cs
  if [".inf", ".Inf", ".INF"].contains (String.ofList body) then some (.infinite negative)
  else if [".nan", ".NaN", ".NAN"].contains s then some .nan
  else (decimal? cs).or (sixties? cs)

/-! ## Days and times -/

/-- From `least` to `most` digits at the start of a text, and what follows. -/
def digitRun? (least most : Nat) (cs : List Char) : Option (Nat × List Char) :=
  let digits := (cs.take most).takeWhile Text.isPlainDigit
  if digits.length < least then none else some (Text.plainNumber digits, cs.drop digits.length)

/-- What follows a character. -/
def after? (c : Char) (cs : List Char) : Option (List Char) :=
  match cs with
  | first :: rest => if first = c then some rest else none
  | [] => none

/-- A day: year, month and day, the latter two with at least `least` digits. -/
def day? (least : Nat) (cs : List Char) : Option (Date × List Char) := do
  let (year, cs) ← digitRun? 4 4 cs
  let (month, cs) ← digitRun? least 2 (← after? '-' cs)
  let (day, cs) ← digitRun? least 2 (← after? '-' cs)
  return (⟨year, month, day⟩, cs)

/-- The distance from universal time at the end of a moment. -/
def zone? (cs : List Char) : Option (Option Int) :=
  match cs.dropWhile fun c => c = ' ' || c = '\t' with
  | [] => if cs.isEmpty then some none else none
  | ['Z'] => some (some 0)
  | sign :: rest =>
    if sign = '+' || sign = '-' then do
      let (hours, rest) ← digitRun? 1 2 rest
      let minutes ← match rest with
        | [] => some 0
        | rest => do
          let (minutes, rest) ← digitRun? 2 2 (← after? ':' rest)
          if rest.isEmpty then some minutes else none
      let total : Int := hours * 60 + minutes
      return some (if sign = '-' then -total else total)
    else none

/-- A moment: a day, a time with seconds and perhaps a fraction, and perhaps a zone. -/
def moment? (cs : List Char) : Option Moment := do
  let (date, cs) ← day? 1 cs
  let cs ← match cs with
    | 'T' :: rest => some rest
    | 't' :: rest => some rest
    | ' ' :: rest => some (rest.dropWhile fun c => c = ' ' || c = '\t')
    | '\t' :: rest => some (rest.dropWhile fun c => c = ' ' || c = '\t')
    | _ => none
  let (hour, cs) ← digitRun? 1 2 cs
  let (minute, cs) ← digitRun? 2 2 (← after? ':' cs)
  let (second, cs) ← digitRun? 2 2 (← after? ':' cs)
  let (fraction, cs) := match cs with
    | '.' :: rest => (rest.takeWhile Text.isPlainDigit, rest.dropWhile Text.isPlainDigit)
    | cs => ([], cs)
  let micro := Text.plainNumber ((fraction ++ List.replicate 6 '0').take 6)
  let zone ← zone? cs
  return ⟨date, hour, minute, second, micro, zone⟩

/-- The day or moment that a scalar writes. One that the calendar does not have is a fault. -/
def time? (cs : List Char) : Option Resolved :=
  let judged (fault : Option String) (t : Tree) : Resolved :=
    fault.elim (.ok t) fun message => .error (.impossible message)
  match day? 2 cs with
  | some (date, []) => some (judged (Date.fault? date) (.date date))
  | _ => (moment? cs).map fun m => judged (Moment.fault? m) (.moment m)

/-! ## Scalars -/

/-- A word in small letters, with a capital at its start, and in capitals. -/
def spellings (word : String) : List String :=
  match word.toList with
  | [] => [word]
  | c :: rest => [word, String.ofList (c.toUpper :: rest), String.ofList ((c :: rest).map Char.toUpper)]

/-- The words for yes. -/
def trueWords : List String := ["yes", "true", "on"].flatMap spellings

/-- The words for no. -/
def falseWords : List String := ["no", "false", "off"].flatMap spellings

/-- The words for nothing. -/
def nullWords : List String := "" :: "~" :: spellings "null"

/-- The value of a plain scalar. Two signs that stand for merging and for a default are refused. -/
def plain (s : String) : Resolved :=
  if trueWords.contains s then .ok (.bool true)
  else if falseWords.contains s then .ok (.bool false)
  else if nullWords.contains s then .ok .null
  else if s = "<<" || s = "=" then .error .malformed
  else match int? s.toList with
    | some r => r
    | none => match float? s.toList with
      | some x => .ok (.float x)
      | none => (time? s.toList).getD (.ok (.text s))

/-- May a value be a key? Lists, sets and mappings may not. -/
def isKey : Tree → Bool
  | .list _ => false
  | .set _ => false
  | .map _ => false
  | _ => true

/-- The sign for a default is an ordinary text where it is a key. -/
def isDefaultSign : Node → Bool
  | .scalar text isPlain => isPlain && text = "="
  | _ => false

/-- The value of a scalar. -/
def scalar (text : String) (isPlain : Bool) : Resolved :=
  if isPlain then plain text else .ok (.text text)

/-! ## Faults, level by level -/

/-- Looks at a node: a scalar has to have a value, and all else is left for later. -/
def glance : Node → Except Fault (List Node)
  | .scalar text isPlain => (scalar text isPlain).map fun _ => []
  | node => .ok [node]

/-- Looks at a key, which has to be a scalar. -/
def glanceKey (node : Node) : Except Fault Unit :=
  match node with
  | .scalar text isPlain =>
    if isDefaultSign node then .ok () else (scalar text isPlain).map fun _ => ()
  | _ => .error .malformed

/-- Looks at an entry of a mapping, the key first. -/
def glanceEntry (entry : Node × Node) : Except Fault (List Node) := do
  glanceKey entry.1
  glance entry.2

/-- Looks at what stands right inside a node, in order, and gives the collections among it. -/
def survey : Node → Except Fault (List Node)
  | .sequence items => (items.mapM glance).map List.flatten
  | .mapping entries => (entries.mapM glanceEntry).map List.flatten
  | .set entries => (entries.mapM glanceEntry).map List.flatten
  | .misfit => .error .malformed
  | node => glance node

/-- Looks at nodes and then, level by level, at the collections inside them, `depth` levels deep. -/
def surveyLevels : Nat → List Node → Except Fault Unit
  | 0, _ => .ok ()
  | _, [] => .ok ()
  | depth + 1, nodes => do
    let inner ← nodes.mapM survey
    surveyLevels depth inner.flatten

/-! ## Documents -/

mutual

/-- The value of a node. -/
def value : Node → Resolved
  | .scalar text isPlain => scalar text isPlain
  | .sequence items => do return .list (← values items)
  | .mapping nodes => do return .map (← entries nodes [])
  | .set nodes => do return .set ((← entries nodes []).map (·.1))
  | .misfit => .error .malformed

/-- The values of nodes in order. -/
def values : List Node → Except Fault (List Tree)
  | [] => .ok []
  | node :: rest => do
    let first ← value node
    let others ← values rest
    return first :: others

/-- The entries of a mapping, added to those set before. -/
def entries : List (Node × Node) → List (Tree × Tree) → Except Fault (List (Tree × Tree))
  | [], done => .ok done
  | (keyNode, valueNode) :: rest, done => do
    let key ← if isDefaultSign keyNode then .ok (.text "=") else value keyNode
    if !isKey key then .error .malformed
    else
      let v ← value valueNode
      entries rest (Tree.putEntry done key v)

end

/-- Reads a source that is one document; one without a document holds nothing. -/
def read (source : Source) : Resolved := do
  let tokens := tokens source
  match ← Node.ofTokens tokens with
  | none => return .null
  | some node =>
    surveyLevels tokens.length [node]
    value node

end Amend.Yaml
