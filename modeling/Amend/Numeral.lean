/-
Whole numbers as people write them in settings: blanks may stand around them and a sign before them,
zeros may lead, single underscores may divide their digits, and a fraction of zeros does not count.
-/
import Amend.Decimal.Limit
import Amend.Text.Blank
import Amend.Text.Digit

namespace Amend.Numeral

/-- Why a text is no numeral. -/
inductive Fault where
  | malformed
  | tooLong
  deriving DecidableEq, Repr

/-- What leading zeros leave. Underscores among them go with them, and the last character that was
passed stays where nothing or a fraction follows. -/
def afterZeros (last : Char) : List Char → List Char
  | [] => [last]
  | c :: rest =>
    if c = '0' || c = '_' then afterZeros c rest
    else if c = '.' then last :: c :: rest
    else c :: rest

/-- A numeral without its leading zeros; it has to start with a digit. -/
def dropZeros? : List Char → Option (List Char)
  | [] => none
  | c :: rest =>
    if c = '0' then some (afterZeros c rest)
    else if Text.isPlainDigit c then some (c :: rest)
    else none

/-- A numeral without a fraction of zeros, if it has one. -/
def dropFraction (cs : List Char) : List Char :=
  let whole := cs.takeWhile (· ≠ '.')
  match cs.drop whole.length with
  | _ :: first :: rest => if (first :: rest).all (· = '0') then whole else cs
  | _ => cs

/-- The groups of a numeral without the single underscores between them. -/
def joinGroups? : List Char → Option (List Char)
  | [] => some []
  | ['_'] => none
  | '_' :: '_' :: _ => none
  | '_' :: rest => joinGroups? rest
  | c :: rest => (joinGroups? rest).map (c :: ·)

/-- The number of digits with perhaps a minus before them. Only zero itself starts with a zero. -/
def ofDigits (cs : List Char) : Except Fault Int :=
  let (negative, body) := match cs with
    | '-' :: rest => (true, rest)
    | rest => (false, rest)
  let digits := body.takeWhile Text.isPlainDigit
  if digits.isEmpty then .error .malformed
  else if digits.head? = some '0' && 1 < body.length then .error .malformed
  else if Decimal.mostDigits < digits.length then .error .tooLong
  else if digits.length < body.length then .error .malformed
  else
    let n : Int := Text.plainNumber digits
    .ok (if negative then -n else n)

/-- Reads a numeral. -/
def read (s : String) : Except Fault Int :=
  let (sign, body) := match Text.trimSpaces s.toList with
    | '-' :: rest => (['-'], rest)
    | '+' :: rest => ([], rest)
    | rest => ([], rest)
  match dropZeros? body with
  | none => .error .malformed
  | some rest =>
    let whole := dropFraction rest
    ofDigits (sign ++ (joinGroups? whole).getD whole)

end Amend.Numeral
