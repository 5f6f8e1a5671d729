/-
Unified diffs: two header lines, then every hunk with its ranges and its lines.
-/
import Amend.Diff.Hunk
import Amend.Text.Lines

namespace Amend.Diff

/-- A range of lines in a header. One line needs no length, and an empty range is named by the line
before it. -/
def rangeText (start stop : Nat) : String :=
  let length := stop - start
  let first := if length = 0 then start else start + 1
  if length = 1 then toString first else s!"{first},{length}"

/-- The lines of a list from `start` up to `stop`. -/
def between (lines : List String) (start stop : Nat) : List String :=
  (lines.take stop).drop start

/-- The lines of a stretch, each with its sign. -/
def Stretch.lines (a b : List String) (s : Stretch) : List String :=
  if s.equal then (between a s.left s.leftStop).map (" " ++ ·)
  else (between a s.left s.leftStop).map ("-" ++ ·) ++ (between b s.right s.rightStop).map ("+" ++ ·)

/-- The header of a hunk. -/
def Hunk.header (hunk : Hunk) : String :=
  match hunk.head?, hunk.getLast? with
  | some first, some last =>
    s!"@@ -{rangeText first.left last.leftStop} +{rangeText first.right last.rightStop} @@\n"
  | _, _ => ""

/-- The lines of a hunk. -/
def Hunk.lines (a b : List String) (hunk : Hunk) : List String :=
  hunk.header :: hunk.flatMap (Stretch.lines a b)

/-- The lines of the diff between two versions of a file. -/
def unifiedLines (path : String) (a b : List String) : List String :=
  match hunks a b with
  | [] => []
  | all => s!"--- a/{path}\n" :: s!"+++ b/{path}\n" :: all.flatMap (Hunk.lines a b)

/-- The diff between two versions of a file. -/
def unified (path before after : String) : String :=
  String.join (unifiedLines path (Text.lines before) (Text.lines after))

end Amend.Diff
