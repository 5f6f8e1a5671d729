/-
Hunks: the changed ranges of two lists of lines, each with up to three lines around it.
-/
import Amend.Diff.Matching

namespace Amend.Diff

/-- Lines `left` to `leftStop` of the first list become lines `right` to `rightStop` of the second;
in an equal stretch they are the same. -/
structure Stretch where
  equal : Bool
  left : Nat
  leftStop : Nat
  right : Nat
  rightStop : Nat
  deriving DecidableEq, Repr

/-- The stretches between and within blocks, from `i` and `j` on, the lists ending at `aSize` and
`bSize`. -/
def stretches (aSize bSize : Nat) : Nat → Nat → List Block → List Stretch
  | i, j, [] => if i < aSize || j < bSize then [⟨false, i, aSize, j, bSize⟩] else []
  | i, j, block :: rest =>
    (if i < block.left || j < block.right then [⟨false, i, block.left, j, block.right⟩] else [])
      ++ ⟨true, block.left, block.left + block.size, block.right, block.right + block.size⟩
      :: stretches aSize bSize (block.left + block.size) (block.right + block.size) rest

/-- How many equal lines a hunk shows around a change. -/
def context : Nat := 3

/-- The last lines of an equal stretch. -/
def Stretch.ending (s : Stretch) : Stretch :=
  { s with left := max s.left (s.leftStop - context), right := max s.right (s.rightStop - context) }

/-- The first lines of an equal stretch. -/
def Stretch.beginning (s : Stretch) : Stretch :=
  { s with leftStop := min s.leftStop (s.left + context)
           rightStop := min s.rightStop (s.right + context) }

/-- Shortens an equal stretch at the start of a list. -/
def trimFirst : List Stretch → List Stretch
  | [] => []
  | s :: rest => (if s.equal then s.ending else s) :: rest

/-- Shortens an equal stretch at the end of a list. -/
def trimLast : List Stretch → List Stretch
  | [] => []
  | [s] => [if s.equal then s.beginning else s]
  | s :: next :: rest => s :: trimLast (next :: rest)

/-- A hunk is a run of stretches. -/
abbrev Hunk := List Stretch

/-- Does the hunk show a change? -/
def Hunk.changes (hunk : Hunk) : Bool :=
  hunk.any (!·.equal)

/-- Cuts stretches into hunks at long equal ones; `hunk` holds the stretches so far in reverse. -/
def cut (hunk : List Stretch) : List Stretch → List Hunk
  | [] => [hunk.reverse]
  | s :: rest =>
    if s.equal && s.leftStop - s.left > 2 * context then
      (s.beginning :: hunk).reverse :: cut [s.ending] rest
    else cut (s :: hunk) rest

/-- The hunks of two lists of lines. -/
def hunks (a b : List String) : List Hunk :=
  let p := Pair.ofLines a b
  let all := stretches a.length b.length 0 0 p.matching
  (cut [] (trimLast (trimFirst all))).filter Hunk.changes

end Amend.Diff
