/-
Splitting a text into lines that keep their ends. A line ends at a line feed, a carriage return,
the two together, a vertical tab, a form feed, one of three information separators, the next-line
character, or a line or paragraph separator.
-/
namespace Amend.Text

/-- A character that ends a line. -/
def isLineEnd (c : Char) : Bool :=
  c = '\n' || c = '\r' || c = '\x0b' || c = '\x0c' || c = '\x1c' || c = '\x1d' || c = '\x1e' ||
    c = '\u0085' || c = '\u2028' || c = '\u2029'

/-- The lines of what follows, the characters of the line so far being given in reverse. -/
def linesFrom (line : List Char) : List Char → List (List Char)
  | [] => if line.isEmpty then [] else [line.reverse]
  | '\r' :: '\n' :: rest => ('\n' :: '\r' :: line).reverse :: linesFrom [] rest
  | c :: rest =>
    if isLineEnd c then (c :: line).reverse :: linesFrom [] rest else linesFrom (c :: line) rest

/-- The lines of a text, each with its end. -/
def lines (s : String) : List String :=
  (linesFrom [] s.toList).map String.ofList

end Amend.Text
