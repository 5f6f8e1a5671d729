/-
Rows and columns. A row ends at a line feed, at a carriage return, or at the two together, and at
nothing else; its break belongs to it. Rows and columns are counted from one.
-/
namespace Amend

/-- The offsets just after each line break, the text starting at offset `at`. -/
def breakEnds : Nat → List Char → List Nat
  | _, [] => []
  | p, '\r' :: '\n' :: rest => (p + 2) :: breakEnds (p + 2) rest
  | p, c :: rest =>
    if c = '\r' || c = '\n' then (p + 1) :: breakEnds (p + 1) rest else breakEnds (p + 1) rest

/-- Where the rows of a text start. -/
structure LineIndex where
  size : Nat
  starts : List Nat
  deriving DecidableEq, Repr

/-- Why a row and a column name no offset. -/
inductive PositionError where
  | noSuchRow (row : Int)
  | noSuchColumn (column : Int)
  | beyondRow (column row : Int)
  deriving DecidableEq, Repr

/-- The reason in words. -/
def PositionError.message : PositionError → String
  | .noSuchRow row => s!"Line out of range: {row}"
  | .noSuchColumn column => s!"Column out of range: {column}"
  | .beyondRow column row => s!"Column out of range: {column} on line {row}"

namespace LineIndex

/-- The rows of a text. The end of the text starts a row of its own. -/
def ofChars (cs : List Char) : LineIndex :=
  let starts := 0 :: breakEnds 0 cs
  let size := cs.length
  ⟨size, if starts.getLast? = some size then starts else starts ++ [size]⟩

/-- The rows of a text. -/
def ofText (s : String) : LineIndex :=
  ofChars s.toList

/-- The number of rows. -/
def rowCount (index : LineIndex) : Nat :=
  index.starts.length

/-- The offset of a row and a column, which may be the start of the next row. -/
def offset (index : LineIndex) (row column : Int) : Except PositionError Nat :=
  if row < 1 || row > index.rowCount then .error (.noSuchRow row)
  else if column < 1 then .error (.noSuchColumn column)
  else
    let start := index.starts.getD (row.toNat - 1) 0
    let stop := index.starts.getD row.toNat index.size
    let offset := start + (column.toNat - 1)
    if offset > stop then .error (.beyondRow column row) else .ok offset

end LineIndex

end Amend
