/-
JSON on one line: no blanks, and every character outside the range from the space to the tilde
written as an escape, those beyond sixteen bits as two.
-/
import Amend.Decimal.Shortest
import Amend.Json.Value
import Amend.Text.Hex

namespace Amend.Json

/-- A sixteen-bit unit as an escape. -/
def unitEscape (unit : Nat) : String :=
  "\\u" ++ Text.hex 4 unit

/-- One character inside a string. -/
def escapeChar (c : Char) : String :=
  if c = '"' then "\\\""
  else if c = '\\' then "\\\\"
  else if c = '\n' then "\\n"
  else if c = '\r' then "\\r"
  else if c = '\t' then "\\t"
  else if c = '\x0c' then "\\f"
  else if c = '\x08' then "\\b"
  else if ' ' ≤ c && c ≤ '~' then c.toString
  else if c.toNat < 0x10000 then unitEscape c.toNat
  else
    let n := c.toNat - 0x10000
    unitEscape (0xd800 + n / 0x400) ++ unitEscape (0xdc00 + n % 0x400)

/-- A string with its quotes. -/
def writeString (s : String) : String :=
  "\"" ++ String.join (s.toList.map escapeChar) ++ "\""

/-- A number with a point or an exponent, or one of the three that JSON has no digits for. -/
def writeDouble : Double → String
  | .nan => "NaN"
  | .infinite negative => if negative then "-Infinity" else "Infinity"
  | x => x.text

mutual

/-- A value on one line. A whole number is written however long it is: a limit to its digits, as the reader
has one, is left out. -/
def write : Json → String
  | .null => "null"
  | .bool b => if b then "true" else "false"
  | .int n => toString n
  | .num x => writeDouble x
  | .str s => writeString s
  | .arr items => "[" ++ writeItems items ++ "]"
  | .obj fields => "\x7b" ++ writeFields fields ++ "\x7d"

/-- The items of an array, divided by commas. -/
def writeItems : List Json → String
  | [] => ""
  | [item] => write item
  | item :: next :: rest => write item ++ "," ++ writeItems (next :: rest)

/-- The fields of an object, divided by commas. -/
def writeFields : List (String × Json) → String
  | [] => ""
  | [(name, value)] => writeString name ++ ":" ++ write value
  | (name, value) :: next :: rest =>
    writeString name ++ ":" ++ write value ++ "," ++ writeFields (next :: rest)

end

end Amend.Json
