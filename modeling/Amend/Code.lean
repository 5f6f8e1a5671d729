/-
Codes of findings. Case and surrounding blanks do not count, and a bare number stands for the code
that puts letters before it.
-/
import Amend.Text.Blank
import Amend.Text.Digit
import Amend.Text.Upper

namespace Amend.Code

/-- The form in which codes are compared. -/
def normalize (s : String) : String :=
  Text.upper (Text.trim s)

/-- The digits of a code made of letters and then digits; any other code as it is. -/
def number (cs : List Char) : List Char :=
  let rest := cs.dropWhile Text.isLatinLetter
  if rest.length < cs.length && !rest.isEmpty && rest.all Text.isDecimal then rest else cs

/-- A text of digits only. -/
def allDigits (cs : List Char) : Bool :=
  !cs.isEmpty && cs.all Text.isDigit

/-- Does a requested code name an actual one? -/
def agrees (requested actual : String) : Bool :=
  let left := (normalize requested).toList
  let right := (normalize actual).toList
  left == right || (number left == number right && (allDigits left || allDigits right))

end Amend.Code
