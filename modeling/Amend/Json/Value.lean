/-
Values of the JSON format. Whole numbers are kept apart from numbers with a point or an exponent,
and the fields of an object keep their order.
-/
import Amend.Decimal.Double
import Amend.Table

namespace Amend

/-- A JSON value. -/
inductive Json where
  | null
  | bool (b : Bool)
  | int (n : Int)
  | num (x : Double)
  | str (s : String)
  | arr (items : List Json)
  | obj (fields : List (String × Json))
  deriving Repr

namespace Json

/-- The value of a field of an object. -/
def field? (name : String) : Json → Option Json
  | .obj fields => Table.get? fields name
  | _ => none

end Json

end Amend
