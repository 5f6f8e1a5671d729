/-
Quoted texts: a text between quotes in which every character can be told apart. The quote is the
single one, unless the text holds single quotes and no double ones.
-/
import Amend.Text.Hex
import Amend.Text.Printable

namespace Amend.Text

/-- The number of a character, as short as its size allows. -/
def numberEscape (c : Char) : String :=
  if c.toNat < 0x100 then "\\x" ++ hex 2 c.toNat
  else if c.toNat < 0x10000 then "\\u" ++ hex 4 c.toNat
  else "\\U" ++ hex 8 c.toNat

/-- One character of a quoted text. -/
def quotedChar (quote c : Char) : String :=
  if c = quote || c = '\\' then String.ofList ['\\', c]
  else if c = '\n' then "\\n"
  else if c = '\r' then "\\r"
  else if c = '\t' then "\\t"
  else if isPrintable c then c.toString
  else numberEscape c

/-- A text between quotes. -/
def quoted (s : String) : String :=
  let cs := s.toList
  let quote := if cs.contains '\'' && !cs.contains '"' then '"' else '\''
  quote.toString ++ String.join (cs.map (quotedChar quote)) ++ quote.toString

end Amend.Text
