/-
Plain data that take part in a configuration, and when two of any kind are the same.
-/
import Amend.Tree

namespace Amend.Tree

/-- Data of texts, whole numbers, flags, lists and mappings. -/
inductive Simple : Tree → Prop where
  | bool (b : Bool) : Simple (.bool b)
  | int (n : Int) : Simple (.int n)
  | text (s : String) : Simple (.text s)
  | list {items : List Tree} (h : ∀ item ∈ items, Simple item) : Simple (.list items)
  | map {entries : List (Tree × Tree)} (hkeys : ∀ entry ∈ entries, Simple entry.1)
      (hvalues : ∀ entry ∈ entries, Simple entry.2) : Simple (.map entries)

/-! ## Equality -/

mutual

/-- Are two values the same? -/
def same : Tree → Tree → Bool
  | .null, .null => true
  | .bool a, .bool b => a = b
  | .int m, .int n => m = n
  | .float x, .float y => x = y
  | .text s, .text t => s = t
  | .date d, .date e => d = e
  | .moment m, .moment n => m = n
  | .list xs, .list ys => sameItems xs ys
  | .tuple xs, .tuple ys => sameItems xs ys
  | .set xs, .set ys => sameItems xs ys
  | .map xs, .map ys => sameEntries xs ys
  | _, _ => false

/-- Are two lists of values the same? -/
def sameItems : List Tree → List Tree → Bool
  | [], [] => true
  | x :: xs, y :: ys => same x y && sameItems xs ys
  | _, _ => false

/-- Are two lists of entries the same? -/
def sameEntries : List (Tree × Tree) → List (Tree × Tree) → Bool
  | [], [] => true
  | (k, v) :: xs, (l, w) :: ys => same k l && same v w && sameEntries xs ys
  | _, _ => false

end

mutual

theorem same_iff : ∀ a b : Tree, same a b = true ↔ a = b
  | .list xs, b => by cases b <;> simp [same, sameItems_iff xs]
  | .tuple xs, b => by cases b <;> simp [same, sameItems_iff xs]
  | .set xs, b => by cases b <;> simp [same, sameItems_iff xs]
  | .map xs, b => by cases b <;> simp [same, sameEntries_iff xs]
  | .null, b => by cases b <;> simp [same]
  | .bool _, b => by cases b <;> simp [same]
  | .int _, b => by cases b <;> simp [same]
  | .float _, b => by cases b <;> simp [same]
  | .text _, b => by cases b <;> simp [same]
  | .date _, b => by cases b <;> simp [same]
  | .moment _, b => by cases b <;> simp [same]

theorem sameItems_iff : ∀ xs ys : List Tree, sameItems xs ys = true ↔ xs = ys
  | [], ys => by cases ys <;> simp [sameItems]
  | x :: xs, ys => by cases ys <;> simp [sameItems, same_iff x, sameItems_iff xs]

theorem sameEntries_iff : ∀ xs ys : List (Tree × Tree), sameEntries xs ys = true ↔ xs = ys
  | [], ys => by cases ys <;> simp [sameEntries]
  | (k, v) :: xs, ys => by
    rcases ys with _ | ⟨⟨l, w⟩, ys⟩ <;> simp [sameEntries, same_iff k, same_iff v, sameEntries_iff xs]

end

instance : DecidableEq Tree := fun a b => decidable_of_iff _ (same_iff a b)

end Amend.Tree
