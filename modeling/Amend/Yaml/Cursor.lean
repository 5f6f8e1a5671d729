/-
A place in a configuration text: what is left of it, and where it stands. The zero character stands
for the end of the text, which itself holds none.
-/
import Amend.Codec.Fault

namespace Amend.Yaml

/-- What is left of a text, the offset of its first character, and the line and column it has. -/
structure Cursor where
  rest : List Char
  index : Nat
  line : Nat
  column : Nat
  deriving Repr

/-- A character that ends a line. -/
def isBreak (c : Char) : Bool :=
  c = '\r' || c = '\n' || c = '\u0085' || c = '\u2028' || c = '\u2029'

/-- The end of the text or of a line. -/
def endsLine (c : Char) : Bool :=
  c = '\x00' || isBreak c

/-- The end of the text or of a line, or a blank. -/
def endsWord (c : Char) : Bool :=
  endsLine c || c = ' ' || c = '\t'

namespace Cursor

/-- A cursor at the start of a text. -/
def start (text : List Char) : Cursor :=
  ⟨text, 0, 0, 0⟩

/-- The character `k` places ahead. -/
def peek (cur : Cursor) (k : Nat) : Char :=
  cur.rest.getD k '\x00'

/-- The character at the cursor. -/
def char (cur : Cursor) : Char :=
  cur.peek 0

/-- Does the text end here? -/
def atEnd (cur : Cursor) : Bool :=
  cur.rest.isEmpty

/-- One character further. A carriage return and a line feed count as one line end. -/
def next (cur : Cursor) : Cursor :=
  match cur.rest with
  | [] => cur
  | c :: rest =>
    if (isBreak c && c ≠ '\r') || (c = '\r' && rest.head? ≠ some '\n') then
      ⟨rest, cur.index + 1, cur.line + 1, 0⟩
    else if c = '\ufeff' then ⟨rest, cur.index + 1, cur.line, cur.column⟩
    else ⟨rest, cur.index + 1, cur.line, cur.column + 1⟩

/-- So many characters further. -/
def skip : Nat → Cursor → Cursor
  | 0, cur => cur
  | n + 1, cur => skip n cur.next

/-- The characters up to the first that a test stops at, and the cursor there. -/
def takeUntil (stops : Char → Bool) (cur : Cursor) : List Char × Cursor :=
  let taken := cur.rest.takeWhile (!stops ·)
  (taken, cur.skip taken.length)

/-- The cursor after the characters that a test takes. -/
def skipWhile (takes : Char → Bool) (cur : Cursor) : Cursor :=
  (cur.takeUntil (!takes ·)).2

/-- The line end at the cursor in its plain form, and the cursor after it; nothing if there is
none. -/
def lineBreak (cur : Cursor) : List Char × Cursor :=
  let c := cur.char
  if c = '\r' && cur.peek 1 = '\n' then (['\n'], cur.skip 2)
  else if c = '\r' || c = '\n' || c = '\u0085' then (['\n'], cur.next)
  else if c = '\u2028' || c = '\u2029' then ([c], cur.next)
  else ([], cur)

/-- Does a mark between documents stand here? -/
def atDocumentMark (cur : Cursor) : Bool :=
  let three := cur.rest.take 3
  (three = ['-', '-', '-'] || three = ['.', '.', '.']) && endsWord (cur.peek 3)

/-- Skips spaces while the column is below a bound. -/
def skipIndent (bound : Nat) (cur : Cursor) : Cursor :=
  cur.skip (min (bound - cur.column) (cur.rest.takeWhile (· = ' ')).length)

end Cursor

/-- What is wrong with a configuration text. -/
inductive Fault where
  /-- It does not follow the format. -/
  | malformed
  /-- It ends inside a scalar. -/
  | cutOff
  /-- Its bytes are no text from some place on. -/
  | undecodable (fault : Codec.DecodeFault)
  /-- It holds a value that cannot be. -/
  | impossible (message : String)
  /-- It holds a number that is too large to be looked at. -/
  | tooLarge (message : String)
  deriving DecidableEq, Repr

end Amend.Yaml
