/-
Sets of characters given as ascending ranges of their numbers.
-/
namespace Amend.Text

/-- Is the number inside one of the ranges, ends included? -/
def inRanges (ranges : List (Nat × Nat)) (n : Nat) : Bool :=
  ranges.any fun (low, high) => low ≤ n && n ≤ high

end Amend.Text
