/-
Reading JSON. A text that is not JSON is refused with the place of the first character that no
JSON text could have there, and a whole number with too many digits as soon as it is met, if there
is a limit to them. The three names of numbers without digits are read too, and the last of several
fields with one name gives its value.
-/
import Amend.Decimal.Limit
import Amend.Json.Value
import Amend.Text.Digit
import Amend.Text.Hex

namespace Amend.Json

/-- Why a text is not JSON. -/
inductive Fault where
  | expectedValue
  | expectedComma
  | expectedColon
  | expectedName
  | extraData
  | unterminated
  | controlCharacter
  | badEscape
  | badUnicodeEscape
  | byteOrderMark
  deriving DecidableEq, Repr

/-- The reason in words. -/
def Fault.words : Fault → String
  | .expectedValue => "Expecting value"
  | .expectedComma => "Expecting ',' delimiter"
  | .expectedColon => "Expecting ':' delimiter"
  | .expectedName => "Expecting property name enclosed in double quotes"
  | .extraData => "Extra data"
  | .unterminated => "Unterminated string starting at"
  | .controlCharacter => "Invalid control character at"
  | .badEscape => "Invalid \\escape"
  | .badUnicodeEscape => "Invalid \\uXXXX escape"
  | .byteOrderMark => "Unexpected UTF-8 BOM (decode using utf-8-sig)"

/-- Where a text is not JSON: the reason, and the offset it holds at. -/
structure Misfit where
  fault : Fault
  offset : Nat
  deriving DecidableEq, Repr

/-- The reason with its place in the text, lines and columns being counted from one. -/
def Misfit.message (e : Misfit) (text : String) : String :=
  let before := text.toList.take e.offset
  let line := before.count '\n' + 1
  let column := (before.reverse.takeWhile (· ≠ '\n')).length + 1
  s!"{e.fault.words}: line {line} column {column} (char {e.offset})"

/-- Why a text was not read. -/
inductive ReadError where
  | notJson (misfit : Misfit)
  /-- A whole number has too many digits. -/
  | longNumber (digits : Nat)
  deriving DecidableEq, Repr

/-- The reason in words. -/
def ReadError.message (e : ReadError) (text : String) : String :=
  match e with
  | .notJson misfit => misfit.message text
  | .longNumber digits => Decimal.tooManyDigits digits

/-- Refuses a text at an offset. -/
def refuse {α : Type} (fault : Fault) (offset : Nat) : Except ReadError α :=
  .error (.notJson ⟨fault, offset⟩)

/-- What is left of a text, and the offset at which it starts. -/
structure Cursor where
  rest : List Char
  offset : Nat
  deriving DecidableEq, Repr

namespace Cursor

/-- The cursor after `n` characters. -/
def skip (cur : Cursor) (n : Nat) : Cursor :=
  ⟨cur.rest.drop n, cur.offset + n⟩

/-- Refuses the text at the cursor. -/
def fail {α : Type} (cur : Cursor) (fault : Fault) : Except ReadError α :=
  refuse fault cur.offset

/-- A blank of the format. -/
def isBlank (c : Char) : Bool :=
  c = ' ' || c = '\t' || c = '\n' || c = '\r'

/-- The cursor after the blanks it stands at. -/
def skipBlanks (cur : Cursor) : Cursor :=
  cur.skip (cur.rest.takeWhile isBlank).length

/-- Does the text go on with this one? -/
def startsWith (cur : Cursor) (s : String) : Bool :=
  s.toList.isPrefixOf cur.rest

end Cursor

/-! ## Strings -/

/-- The number of four digits in base sixteen. -/
def fourHex? : List Char → Option Nat
  | a :: b :: c :: d :: _ => do
    let a ← Text.hexValue? a
    let b ← Text.hexValue? b
    let c ← Text.hexValue? c
    let d ← Text.hexValue? d
    return ((a * 16 + b) * 16 + c) * 16 + d
  | _ => none

/-- The character that a one-letter escape stands for. -/
def shortEscape? (c : Char) : Option Char :=
  match c with
  | '"' => some '"'
  | '\\' => some '\\'
  | '/' => some '/'
  | 'b' => some '\x08'
  | 'f' => some '\x0c'
  | 'n' => some '\n'
  | 'r' => some '\r'
  | 't' => some '\t'
  | _ => none

/-- A character by its number. A half of a pair that stands alone is no character and is replaced, so
that a text which has such a half is not read as it is; `hasLoneHalf` tells these texts. -/
def charOfUnit (n : Nat) : Char :=
  if 0xd800 ≤ n && n < 0xe000 then '\ufffd' else Char.ofNat n

/-- The character of an escape by number, the cursor standing at its digits, and how many
characters it takes. Two halves of a pair make one character. -/
def unicodeEscape (cur : Cursor) : Except ReadError (Char × Nat) :=
  -- The digits must be followed by something: at least the closing quote.
  if (cur.rest.drop 4).isEmpty then refuse .badUnicodeEscape (cur.offset - 1)
  else match fourHex? cur.rest with
    | none => refuse .badUnicodeEscape (cur.offset - 1)
    | some high =>
      let pair := 0xd800 ≤ high && high < 0xdc00 && !(cur.rest.drop 10).isEmpty
        && (cur.skip 4).startsWith "\\u"
      if !pair then .ok (charOfUnit high, 4)
      else match fourHex? (cur.rest.drop 6) with
        | none => refuse .badUnicodeEscape (cur.offset + 5)
        | some low =>
          if 0xdc00 ≤ low && low < 0xe000 then
            .ok (Char.ofNat (0x10000 + (high - 0xd800) * 0x400 + (low - 0xdc00)), 10)
          else .ok (charOfUnit high, 4)

/-- Does an escape stand for half of a pair alone? The text is what follows its backslash. -/
def isLoneHalf : List Char → Bool
  | 'u' :: digits =>
    match fourHex? digits, unicodeEscape ⟨digits, 0⟩ with
    | some n, .ok (_, taken) => 0xd800 ≤ n && n < 0xe000 && taken = 4
    | _, _ => false
  | _ => false

/-- How many characters an escape takes after its backslash. -/
def escapeWidth : List Char → Nat
  | 'u' :: digits =>
    match unicodeEscape ⟨digits, 0⟩ with
    | .ok (_, taken) => taken + 1
    | .error _ => 1
  | _ => 1

/-- Does a text have an escape for half of a pair that stands alone? Of the text, `skip` characters
belong to an escape that was looked at before. -/
def hasLoneHalf : (skip : Nat) → List Char → Bool
  | _, [] => false
  | skip + 1, _ :: rest => hasLoneHalf skip rest
  | 0, '\\' :: rest => isLoneHalf rest || hasLoneHalf (escapeWidth rest) rest
  | 0, _ :: rest => hasLoneHalf 0 rest

/-- The rest of a string whose quote stands at `start`, and the offset after its closing quote.
`done` holds its characters in reverse, `offset` is that of the text, and `skip` characters of the
text belong to an escape that was read before. -/
def stringBody (start : Nat) (done : List Char) :
    (skip offset : Nat) → List Char → Except ReadError (String × Nat)
  | _, _, [] => refuse .unterminated start
  | skip + 1, offset, _ :: rest => stringBody start done skip (offset + 1) rest
  | 0, offset, '"' :: _ => .ok (String.ofList done.reverse, offset + 1)
  | 0, offset, '\\' :: rest =>
    match rest with
    | [] => refuse .unterminated start
    | 'u' :: digits =>
      match unicodeEscape ⟨digits, offset + 2⟩ with
      | .ok (c, taken) => stringBody start (c :: done) taken (offset + 2) digits
      | .error e => .error e
    | e :: more =>
      match shortEscape? e with
      | some c => stringBody start (c :: done) 0 (offset + 2) more
      | none => refuse .badEscape offset
  | 0, offset, c :: rest =>
    if c.toNat < 0x20 then refuse .controlCharacter offset
    else stringBody start (c :: done) 0 (offset + 1) rest

/-- A string, the cursor standing just after its opening quote. -/
def string (cur : Cursor) : Except ReadError (String × Cursor) := do
  let (s, stop) ← stringBody (cur.offset - 1) [] 0 cur.offset cur.rest
  return (s, cur.skip (stop - cur.offset))

/-! ## Numbers -/

/-- The digits at the start of a text. -/
def digitsOf (cs : List Char) : List Char :=
  cs.takeWhile Text.isPlainDigit

/-- The whole part of a number: zero alone, or digits that do not start with zero. -/
def wholePart (cs : List Char) : List Char :=
  match digitsOf cs with
  | '0' :: _ => ['0']
  | digits => digits

/-- The digits after the point, if a point with a digit follows. -/
def fractionPart (cs : List Char) : List Char :=
  match cs with
  | '.' :: rest => digitsOf rest
  | _ => []

/-- The exponent and the number of its characters, if a whole one follows. -/
def exponentPart? (cs : List Char) : Option (Int × Nat) :=
  match cs with
  | e :: rest =>
    if e = 'e' || e = 'E' then
      let (negative, signs) := match rest with
        | '-' :: _ => (true, 1)
        | '+' :: _ => (false, 1)
        | _ => (false, 0)
      let digits := digitsOf (rest.drop signs)
      if digits.isEmpty then none
      else
        let n : Int := Text.plainNumber digits
        some (if negative then -n else n, 1 + signs + digits.length)
    else none
  | [] => none

/-- A number at the cursor. A whole number may have no more digits than the limit, if there is one. -/
def number (limit : Option Nat) (cur : Cursor) : Except ReadError (Json × Cursor) :=
  let negative := cur.startsWith "-"
  let body := if negative then cur.skip 1 else cur
  let whole := wholePart body.rest
  if whole.isEmpty then cur.fail .expectedValue
  else
    let fraction := fractionPart (body.skip whole.length).rest
    let mid := body.skip (whole.length + (if fraction.isEmpty then 0 else fraction.length + 1))
    let exponent? := exponentPart? mid.rest
    if fraction.isEmpty && exponent?.isNone then
      let n : Int := Text.plainNumber whole
      if limit.any (· < whole.length) then .error (.longNumber whole.length)
      else .ok (.int (if negative then -n else n), mid)
    else
      let (exponent, width) := exponent?.getD (0, 0)
      .ok (.num (Double.ofDecimal negative (Text.plainNumber (whole ++ fraction))
        (exponent - fraction.length)), mid.skip width)

/-! ## Values -/

/-- The words that stand for a value. -/
def wordValues : List (String × Json) :=
  [("null", .null), ("true", .bool true), ("false", .bool false), ("NaN", .num .nan),
   ("Infinity", .num (.infinite false)), ("-Infinity", .num (.infinite true))]

mutual

/-- A value at the cursor. -/
def value (limit : Option Nat) : Nat → Cursor → Except ReadError (Json × Cursor)
  | 0, cur => cur.fail .expectedValue
  | fuel + 1, cur =>
    match cur.rest with
    | '"' :: _ => do
      let (s, next) ← string (cur.skip 1)
      return (.str s, next)
    | '[' :: _ =>
      let open_ := (cur.skip 1).skipBlanks
      if open_.startsWith "]" then .ok (.arr [], open_.skip 1)
      else do
        let (items, next) ← items limit fuel open_
        return (.arr items, next)
    | '\x7b' :: _ =>
      let open_ := (cur.skip 1).skipBlanks
      if open_.startsWith "\x7d" then .ok (.obj [], open_.skip 1)
      else do
        let (fields, next) ← fields limit fuel open_ []
        return (.obj fields, next)
    | _ =>
      match wordValues.find? fun (word, _) => cur.startsWith word with
      | some (word, v) => .ok (v, cur.skip word.length)
      | none => number limit cur

/-- The items of an array up to its closing bracket. -/
def items (limit : Option Nat) : Nat → Cursor → Except ReadError (List Json × Cursor)
  | 0, cur => cur.fail .expectedValue
  | fuel + 1, cur => do
    let (v, next) ← value limit fuel cur
    let next := next.skipBlanks
    if next.startsWith "]" then return ([v], next.skip 1)
    else if next.startsWith "," then
      let (rest, last) ← items limit fuel (next.skip 1).skipBlanks
      return (v :: rest, last)
    else next.fail .expectedComma

/-- The fields of an object up to its closing brace, added to those read before. -/
def fields (limit : Option Nat) :
    Nat → Cursor → List (String × Json) → Except ReadError (List (String × Json) × Cursor)
  | 0, cur, _ => cur.fail .expectedName
  | fuel + 1, cur, done => do
    if !cur.startsWith "\"" then cur.fail .expectedName
    else
      let (name, next) ← string (cur.skip 1)
      let next := next.skipBlanks
      if !next.startsWith ":" then next.fail .expectedColon
      else
        let (v, next) ← value limit fuel (next.skip 1).skipBlanks
        let next := next.skipBlanks
        let done := Table.put done name v
        if next.startsWith "\x7d" then return (done, next.skip 1)
        else if next.startsWith "," then fields limit fuel (next.skip 1).skipBlanks done
        else next.fail .expectedComma

end

/-- Reads a text that is one JSON value, with a limit to the digits of its whole numbers or without. -/
def readWithin (limit : Option Nat) (text : String) : Except ReadError Json :=
  let cs := text.toList
  if cs.head? = some '\ufeff' then refuse .byteOrderMark 0
  else do
    let (v, next) ← value limit (2 * cs.length + 2) (Cursor.mk cs 0).skipBlanks
    let next := next.skipBlanks
    if next.rest.isEmpty then return v else next.fail .extraData

/-- Reads a text that is one JSON value. -/
def read (text : String) : Except ReadError Json :=
  readWithin (some Decimal.mostDigits) text

end Amend.Json
