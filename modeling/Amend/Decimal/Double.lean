/-
Binary floating point numbers of 64 bits, as exact integers: reading a decimal rounds it to the
nearest number, a half going to the even neighbour. All arithmetic is on natural numbers.
-/
namespace Amend

/-- A finite number is `mantissa · 2 ^ exponent` with its sign; the mantissa is below `2 ^ 53`, the
exponent at least `-1074`, and the mantissa is at least `2 ^ 52` unless the exponent is least. -/
inductive Double where
  | nan
  | infinite (negative : Bool)
  | finite (negative : Bool) (mantissa : Nat) (exponent : Int)
  deriving DecidableEq, Repr

/-- What numbers of all kinds are compared by: an integer, or a number that equals none. -/
inductive Quantity where
  | whole (n : Int)
  | other (x : Double)
  deriving DecidableEq, Repr

namespace Double

/-- The least exponent. -/
def leastExponent : Int := -1074

/-- The greatest exponent. -/
def greatestExponent : Int := 971

/-- Zero with a sign. -/
def zero (negative : Bool) : Double :=
  .finite negative 0 leastExponent

/-- The quotient rounded to the nearest integer, a half to the even one. -/
def roundDiv (num den : Nat) : Nat :=
  let q := num / den
  let r := num % den
  if 2 * r > den || (2 * r == den && q % 2 == 1) then q + 1 else q

/-- The least mantissa of a number whose exponent is not the least one. -/
def leastMantissa : Nat := 0x10000000000000

/-- The bound that every mantissa is below. -/
def mantissaBound : Nat := 0x20000000000000

/-- A quotient of positive numbers divided by `2 ^ e`, as a quotient. -/
def scaled (num den : Nat) (e : Int) : Nat × Nat :=
  (num * Nat.pow 2 (-e).toNat, den * Nat.pow 2 e.toNat)

/-- The number nearest to a quotient. -/
def ofRatio (negative : Bool) (num den : Nat) : Double :=
  if num = 0 then zero negative
  else
    let low := (Nat.log2 num : Int) - Nat.log2 den - 53
    let first := scaled num den low
    let exact := if first.1 / first.2 ≥ mantissaBound then low + 1 else low
    let e := max exact leastExponent
    let (n, d) := scaled num den e
    let m := roundDiv n d
    let (m, e) := if m ≥ mantissaBound then (m / 2, e + 1) else (m, e)
    if e > greatestExponent then .infinite negative else .finite negative m e

/-- The number nearest to `digits · 10 ^ exponent`. -/
def ofDecimal (negative : Bool) (digits : Nat) (exponent : Int) : Double :=
  if digits = 0 then zero negative
  else
    -- Beyond these bounds the result is known, and the powers of ten would be huge.
    let magnitude := ((Nat.toDigits 10 digits).length : Int) + exponent
    if magnitude > 400 then .infinite negative
    else if magnitude < -400 then zero negative
    else ofRatio negative (digits * Nat.pow 10 exponent.toNat) (Nat.pow 10 (-exponent).toNat)

/-- The number nearest to an integer. -/
def ofInt (n : Int) : Double :=
  ofDecimal (n < 0) n.natAbs 0

/-- The number nearest to `mantissa · 2 ^ exponent`. -/
def ofScaled (negative : Bool) (mantissa : Nat) (exponent : Int) : Double :=
  ofRatio negative (mantissa * Nat.pow 2 exponent.toNat) (Nat.pow 2 (-exponent).toNat)

/-- The number with the other sign. -/
def neg : Double → Double
  | .nan => .nan
  | .infinite negative => .infinite !negative
  | .finite negative m e => .finite (!negative) m e

/-- The number nearest to a product. -/
def mul : Double → Double → Double
  | .finite s m e, .finite t n f => ofScaled (s != t) (m * n) (e + f)
  | .infinite s, .infinite t => .infinite (s != t)
  | .infinite s, .finite t n _ => if n = 0 then .nan else .infinite (s != t)
  | .finite s m _, .infinite t => if m = 0 then .nan else .infinite (s != t)
  | _, _ => .nan

/-- The number nearest to a sum. -/
def add : Double → Double → Double
  | .finite s m e, .finite t n f =>
    let least := min e f
    let part (negative : Bool) (m : Nat) (e : Int) : Int :=
      let size : Int := m * Nat.pow 2 (e - least).toNat
      if negative then -size else size
    let sum := part s m e + part t n f
    if sum = 0 then zero (s && t) else ofScaled (sum < 0) sum.natAbs least
  | .infinite s, .infinite t => if s = t then .infinite s else .nan
  | .infinite s, .finite .. => .infinite s
  | .finite .., .infinite t => .infinite t
  | _, _ => .nan

/-- The integer that a number equals, if it equals one. -/
def toInt? : Double → Option Int
  | .finite negative m e =>
    let size? : Option Nat :=
      if 0 ≤ e then some (m * Nat.pow 2 e.toNat)
      else if m % Nat.pow 2 (-e).toNat = 0 then some (m / Nat.pow 2 (-e).toNat)
      else none
    size?.map fun size => if negative then -(size : Int) else size
  | _ => none

/-- What the number is compared by. -/
def quantity (x : Double) : Quantity :=
  x.toInt?.elim (.other x) .whole

/-- Is the number finite? -/
def isFinite : Double → Bool
  | .finite .. => true
  | _ => false

end Double

end Amend
