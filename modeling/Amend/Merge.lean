/-
Merging edits into a text. Edits are taken from the end of the text towards its beginning, so all
offsets stay those of the text as it was. An edit that reaches into one already taken, or starts
where one was taken, is left out.
-/
import Amend.Span

namespace Amend

/-- An edit whose span does not lie within the text. -/
structure InvalidSpan where
  index : Nat
  edit : Edit
  size : Nat
  deriving DecidableEq, Repr

/-- The misfit in words. -/
def InvalidSpan.message (e : InvalidSpan) : String :=
  s!"Edit #{e.index} span [{e.edit.span.start}, {e.edit.span.stop}) lies outside a buffer of length {e.size}"

namespace Merge

/-- The items from index `from` on, with their indices. -/
def numbered {α : Type} : Nat → List α → List (Nat × α)
  | _, [] => []
  | i, a :: rest => (i, a) :: numbered (i + 1) rest

/-- The first edit that does not fit a text of this size. -/
def misfit? (size : Nat) (edits : List Edit) : Option InvalidSpan :=
  (numbered 0 edits).findSome? fun (i, edit) =>
    if edit.span.fits size then none else some ⟨i, edit, size⟩

/-- The spans with their indices, higher starts first; equal starts keep their order. -/
def byPriority (spans : List Span) : List (Nat × Span) :=
  (numbered 0 spans).mergeSort fun a b => b.2.start ≤ a.2.start

/-- Indices of the spans that are taken and of those that are left out. -/
structure Verdict where
  accepted : List Nat
  skipped : List Nat
  deriving DecidableEq, Repr

/-- One pass over spans by priority. `boundary` is the start of the span taken last, or the size
of the text while none is taken. -/
def sweep (boundary : Int) (taken : Bool) : List (Nat × Span) → Verdict
  | [] => ⟨[], []⟩
  | (i, span) :: rest =>
    if span.stop > boundary || (taken && span.start == boundary) then
      let v := sweep boundary taken rest
      { v with skipped := i :: v.skipped }
    else
      let v := sweep span.start true rest
      { v with accepted := i :: v.accepted }

/-- The spans that are taken, from the last to the first, and those that are left out. -/
def select (spans : List Span) (size : Nat) : Verdict :=
  sweep size false (byPriority spans)

/-- The characters from `start` up to `stop`. -/
def slice (cs : List Char) (start stop : Nat) : List Char :=
  (cs.take stop).drop start

/-- The text up to `cursor` with the edits made, the last one coming first. -/
def splice (cs : List Char) : Nat → List Edit → List Char
  | cursor, [] => cs.take cursor
  | cursor, edit :: rest =>
    splice cs edit.span.start.toNat rest ++ edit.text.toList
      ++ slice cs edit.span.stop.toNat cursor

/-- The items at the given indices. -/
def pick {α : Type} (items : List α) (indices : List Nat) : List α :=
  indices.filterMap (items[·]?)

/-- The indices in ascending order. -/
def ascending (indices : List Nat) : List Nat :=
  indices.mergeSort (· ≤ ·)

end Merge

/-- A merged text, the edits that are in it and those left out. -/
structure Merged (α : Type) where
  text : String
  applied : List α
  skipped : List α
  deriving DecidableEq, Repr

namespace Merge

/-- Merges items that each carry an edit. The applied ones come last to first, the skipped ones in
the order given. -/
def mergeBy {α : Type} (editOf : α → Edit) (text : String) (items : List α) :
    Except InvalidSpan (Merged α) :=
  let edits := items.map editOf
  match misfit? text.length edits with
  | some e => .error e
  | none =>
    let v := select (edits.map (·.span)) text.length
    .ok {
      text := String.ofList (splice text.toList text.length (pick edits v.accepted))
      applied := pick items v.accepted
      skipped := pick items (ascending v.skipped) }

/-- Merges edits into a text. -/
def apply (text : String) (edits : List Edit) : Except InvalidSpan (Merged Edit) :=
  mergeBy id text edits

end Merge

end Amend
