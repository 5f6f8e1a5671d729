/-
The fewest decimal digits that read back as the same number, and of those the nearest. A number is
written positionally from a ten-thousandth up to ten to the sixteenth, and with an exponent of at
least two digits otherwise.
-/
import Amend.Decimal.Double

namespace Amend.Double

/-- A decimal `0.digits · 10 ^ point`, the first and the last digit not being zero. -/
structure Decimal where
  digits : List Char
  point : Int
  deriving DecidableEq, Repr

/-- The decimals that read back as a positive number: those between `low / den` and
`high / den`, the ends included for an even mantissa. -/
structure Basin where
  low : Nat
  value : Nat
  high : Nat
  den : Nat
  closed : Bool

/-- The basin of `m · 2 ^ e`. The gap below a power of two is half as wide. -/
def basin (m : Nat) (e : Int) : Basin :=
  let below := if m = leastMantissa && e > leastExponent then 1 else 2
  let up := Nat.pow 2 (e - 2).toNat
  let down := Nat.pow 2 (2 - e).toNat
  ⟨(4 * m - below) * up, 4 * m * up, (4 * m + 2) * up, down, m % 2 == 0⟩

/-- Does `n · num / den` lie in the basin? -/
def Basin.holds (b : Basin) (n num den : Nat) : Bool :=
  let x := n * num * b.den
  if b.closed then b.low * den ≤ x && x ≤ b.high * den
  else b.low * den < x && x < b.high * den

/-- The number of decimal digits of a natural number. -/
def digitCount (n : Nat) : Nat :=
  (Nat.toDigits 10 n).length

/-- The power of ten just above the value: it lies in `[10 ^ (k - 1), 10 ^ k)`. -/
def Basin.magnitude (b : Basin) : Int :=
  let k := (digitCount b.value : Int) - digitCount b.den
  if b.value * Nat.pow 10 (-k).toNat ≥ b.den * Nat.pow 10 k.toNat then k + 1 else k

/-- The decimal of `count` digits that reads back, if there is one. -/
def Basin.withDigits? (b : Basin) (count : Nat) : Option (Nat × Int) :=
  let step := b.magnitude - count
  let num := Nat.pow 10 step.toNat
  let den := Nat.pow 10 (-step).toNat
  let below := b.value * den / (b.den * num)
  let above := below + 1
  match b.holds below num den, b.holds above num den with
  | true, true =>
    -- Twice the value against the sum of its two neighbours.
    let twice := 2 * b.value * den
    let middle := (below + above) * num * b.den
    if twice < middle || (twice == middle && below % 2 == 0) then some (below, step)
    else some (above, step)
  | true, false => some (below, step)
  | false, true => some (above, step)
  | false, false => none

/-- The digits of a positive number without the zeros at their end. -/
def significant (n : Nat) : List Char :=
  ((Nat.toDigits 10 n).reverse.dropWhile (· == '0')).reverse

/-- The shortest decimal of a positive number. Seventeen digits always read back. -/
def shortest (m : Nat) (e : Int) : Decimal :=
  let b := basin m e
  let (n, step) := ((List.range 17).findSome? fun i => b.withDigits? (i + 1)).getD (b.value, 0)
  ⟨significant n, (digitCount n : Int) + step⟩

/-- A decimal with its point among its digits or zeros on either side. -/
def Decimal.positional (d : Decimal) : String :=
  if d.point ≤ 0 then
    "0." ++ String.ofList (List.replicate (-d.point).toNat '0' ++ d.digits)
  else
    let whole := d.digits.take d.point.toNat
    let part := d.digits.drop d.point.toNat
    String.ofList (whole ++ List.replicate (d.point.toNat - whole.length) '0') ++ "."
      ++ (if part.isEmpty then "0" else String.ofList part)

/-- A decimal with one digit before its point and an exponent. -/
def Decimal.scientific (d : Decimal) : String :=
  let exponent := d.point - 1
  let size := toString exponent.natAbs
  let part := d.digits.drop 1
  String.ofList (d.digits.take 1)
    ++ (if part.isEmpty then "" else "." ++ String.ofList part)
    ++ (if exponent < 0 then "e-" else "e+")
    ++ (if size.length < 2 then "0" ++ size else size)

/-- The text of a decimal. -/
def Decimal.text (d : Decimal) : String :=
  if -4 < d.point && d.point ≤ 16 then d.positional else d.scientific

/-- The text of a number. -/
def text : Double → String
  | .nan => "nan"
  | .infinite negative => if negative then "-inf" else "inf"
  | .finite negative m e =>
    (if negative then "-" else "") ++ (if m = 0 then "0.0" else (shortest m e).text)

end Amend.Double
