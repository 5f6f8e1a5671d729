/-
How many digits a whole number may have where its decimal digits are read or written.
-/
namespace Amend.Decimal

/-- The most digits that a whole number is read or written with. -/
def mostDigits : Nat := 4300

/-- What is said of a numeral with too many digits. -/
def tooManyDigits (count : Nat) : String :=
  s!"Exceeds the limit ({mostDigits} digits) for integer string conversion: value has {count} digits; use sys.set_int_max_str_digits() to increase the limit"

/-- The least number that has too many digits. -/
def leastTooLong : Nat := Nat.pow 10 mostDigits

/-- Has a number too many digits to be written? -/
def isTooLong (n : Int) : Bool :=
  leastTooLong ≤ n.natAbs

end Amend.Decimal
