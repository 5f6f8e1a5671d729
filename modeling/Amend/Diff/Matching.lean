/-
Matching two lists of lines: the longest block that both have, then the same on either side of it.
Lines that fill more than a hundredth of a long second list are not looked for, though a block may
grow over them.
-/
namespace Amend.Diff

/-- `size` lines from `left` in the first list equal those from `right` in the second. -/
structure Block where
  left : Nat
  right : Nat
  size : Nat
  deriving DecidableEq, Repr

/-- Two lists of lines, and the lines of the second that are looked for. -/
structure Pair where
  a : Array String
  b : Array String
  sought : Array Bool

/-- The length from which on frequent lines are left aside. -/
def longList : Nat := 200

/-- How many lines equal the given one. -/
def occurrences (lines : Array String) (line : String) : Nat :=
  lines.foldl (fun n other => if other = line then n + 1 else n) 0

/-- Prepares two lists for matching. -/
def Pair.ofLines (a b : List String) : Pair :=
  let b := b.toArray
  let most := b.size / 100 + 1
  let sought := b.map fun line => b.size < longList || occurrences b line ≤ most
  ⟨a.toArray, b, sought⟩

namespace Pair

/-- Are these two lines equal? -/
def same (p : Pair) (i j : Nat) : Bool :=
  match p.a[i]?, p.b[j]? with
  | some x, some y => x == y
  | _, _ => false

/-- The lengths of the blocks that end at line `i` and at each of the lines from `j` on, given
those that end one line earlier: `above` starts with the one that ends at `i - 1` and `j - 1`. -/
def row (p : Pair) (i : Nat) : Nat → List Nat → List Nat
  | _, [] => []
  | j, before :: rest =>
    (if p.sought.getD j false && p.same i j then before + 1 else 0) :: row p i (j + 1) rest

/-- The better of a block and the blocks that end at line `i` and at the lines from `j` on. An
earlier block is replaced by a longer one only. -/
def better (i : Nat) (best : Block) : Nat → List Nat → Block
  | _, [] => best
  | j, k :: rest =>
    better i (if k > best.size then ⟨i + 1 - k, j + 1 - k, k⟩ else best) (j + 1) rest

/-- Looks at `count` lines of the first list from `i` on; `above` holds the lengths of the blocks
that end one line earlier. -/
def scan (p : Pair) (bLow width : Nat) : Nat → Nat → List Nat → Block → Block
  | 0, _, _, best => best
  | count + 1, i, above, best =>
    let current := p.row i bLow ((0 :: above).take width)
    scan p bLow width count (i + 1) current (better i best bLow current)

/-- Grows a block backwards over equal lines, at most `room` times. -/
def growBack (p : Pair) : Nat → Block → Block
  | 0, block => block
  | room + 1, block =>
    if 0 < block.left && 0 < block.right && p.same (block.left - 1) (block.right - 1) then
      growBack p room ⟨block.left - 1, block.right - 1, block.size + 1⟩
    else block

/-- Grows a block forwards over equal lines, at most `room` times. -/
def growOn (p : Pair) : Nat → Block → Block
  | 0, block => block
  | room + 1, block =>
    if p.same (block.left + block.size) (block.right + block.size) then
      growOn p room { block with size := block.size + 1 }
    else block

/-- The longest block within two ranges, the first of several. -/
def longest (p : Pair) (aLow aHigh bLow bHigh : Nat) : Block :=
  let width := bHigh - bLow
  let best := p.scan bLow width (aHigh - aLow) aLow (List.replicate width 0) ⟨aLow, bLow, 0⟩
  let best := p.growBack (min (best.left - aLow) (best.right - bLow)) best
  p.growOn (min (aHigh - (best.left + best.size)) (bHigh - (best.right + best.size))) best

/-- The blocks within two ranges, in order. -/
def blocks (p : Pair) : Nat → Nat → Nat → Nat → Nat → List Block
  | 0, _, _, _, _ => []
  | fuel + 1, aLow, aHigh, bLow, bHigh =>
    if aLow < aHigh && bLow < bHigh then
      let m := p.longest aLow aHigh bLow bHigh
      if m.size = 0 then []
      else
        blocks p fuel aLow m.left bLow m.right ++ m
          :: blocks p fuel (m.left + m.size) aHigh (m.right + m.size) bHigh
    else []

/-- Joins a block to the blocks after it where they touch. -/
def joined : List Block → List Block
  | [] => []
  | block :: rest =>
    match joined rest with
    | [] => [block]
    | next :: more =>
      if block.left + block.size = next.left && block.right + block.size = next.right then
        { block with size := block.size + next.size } :: more
      else block :: next :: more

/-- All blocks of two lists, touching ones joined. -/
def matching (p : Pair) : List Block :=
  joined (p.blocks (p.a.size + 1) 0 p.a.size 0 p.b.size)

end Pair

end Amend.Diff
