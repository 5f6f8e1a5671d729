/-
Tables that remember the order of insertion: giving a key a new value keeps its place, and a key
that is erased and set again moves to the end.
-/
namespace Amend

/-- Keys with their values, in the order in which the keys were first set. -/
abbrev Table (κ ν : Type) := List (κ × ν)

namespace Table

variable {κ ν : Type} [DecidableEq κ]

/-- The value of a key. -/
def get? : Table κ ν → κ → Option ν
  | [], _ => none
  | (k, v) :: rest, key => if k = key then some v else get? rest key

/-- Sets a key, in place if it is there and at the end if it is new. -/
def put : Table κ ν → κ → ν → Table κ ν
  | [], key, value => [(key, value)]
  | (k, v) :: rest, key, value =>
    if k = key then (k, value) :: rest else (k, v) :: put rest key value

/-- The table without a key. -/
def erase (table : Table κ ν) (key : κ) : Table κ ν :=
  table.filter fun row => row.1 ≠ key

/-- Gives a key a value computed from the one it has. -/
def alter (table : Table κ ν) (key : κ) (f : Option ν → ν) : Table κ ν :=
  table.put key (f (table.get? key))

/-- The keys in order. -/
def keys (table : Table κ ν) : List κ :=
  table.map (·.1)

/-- The values in the order of their keys. -/
def values (table : Table κ ν) : List ν :=
  table.map (·.2)

/-- Is the key set? -/
def has (table : Table κ ν) (key : κ) : Bool :=
  (table.get? key).isSome

/-- The table that setting the pairs one after the other gives. -/
def ofPairs (pairs : List (κ × ν)) : Table κ ν :=
  pairs.foldl (fun table row => table.put row.1 row.2) []

/-! ## Laws -/

@[simp] theorem get?_nil (key : κ) : get? ([] : Table κ ν) key = none := rfl

@[simp] theorem put_nil (key : κ) (value : ν) : put ([] : Table κ ν) key value = [(key, value)] := rfl

/-- A key that was just set has its value, and the others keep theirs. -/
theorem get?_put (table : Table κ ν) (key other : κ) (value : ν) :
    get? (put table key value) other = if key = other then some value else get? table other := by
  induction table with
  | nil => simp [get?]
  | cons row rest ih =>
    obtain ⟨k, v⟩ := row
    by_cases hk : k = key
    · subst hk; by_cases ho : k = other <;> simp [put, get?, ho]
    · by_cases ho : k = other
      · subst ho; simp [put, get?, hk, Ne.symm hk]
      · simp [put, get?, hk, ho, ih]

end Table

end Amend
