/-
Laws of tables: which keys are there, in which order, and what each operation does to the value of
a key. A table built by `put` alone has each key once, and then its rows and `get?` say the same.
-/
import Amend.Table
import Mathlib.Data.List.Nodup

namespace Amend.Table

variable {κ ν : Type} [DecidableEq κ]

/-! ## Rows and keys -/

theorem get?_eq_none_iff (table : Table κ ν) (key : κ) : table.get? key = none ↔ key ∉ table.keys := by
  induction table with
  | nil => simp [keys]
  | cons row rest ih =>
    obtain ⟨k, v⟩ := row
    unfold get?
    by_cases hk : k = key
    · simp [hk, keys]
    · rw [if_neg hk, ih]
      simp [keys, Ne.symm hk]

theorem mem_keys_iff (table : Table κ ν) (key : κ) : key ∈ table.keys ↔ ∃ value, table.get? key = some value := by
  rw [← not_iff_not, ← get?_eq_none_iff, ← Option.ne_none_iff_exists', not_not]

theorem mem_of_get? {table : Table κ ν} {key : κ} {value : ν} (h : table.get? key = some value) :
    (key, value) ∈ table := by
  induction table with
  | nil => cases h
  | cons row rest ih =>
    obtain ⟨k, v⟩ := row
    unfold get? at h
    split at h
    · rename_i hk
      cases h; subst hk
      exact List.mem_cons_self ..
    · exact List.mem_cons_of_mem _ (ih h)

/-- In a table without repeated keys each row is what its key is looked up as. -/
theorem get?_of_mem {table : Table κ ν} (hn : table.keys.Nodup) {key : κ} {value : ν}
    (h : (key, value) ∈ table) : table.get? key = some value := by
  induction table with
  | nil => cases h
  | cons row rest ih =>
    obtain ⟨k, v⟩ := row
    have hn' : k ∉ keys rest ∧ (keys rest).Nodup := List.nodup_cons.1 hn
    unfold get?
    rcases List.mem_cons.1 h with h | h
    · cases h; rw [if_pos rfl]
    · have hne : k ≠ key := by
        rintro rfl
        exact hn'.1 (List.mem_map.2 ⟨_, h, rfl⟩)
      rw [if_neg hne]
      exact ih hn'.2 h

/-! ## Operations -/

theorem keys_put (table : Table κ ν) (key : κ) (value : ν) :
    (table.put key value).keys = if key ∈ table.keys then table.keys else table.keys ++ [key] := by
  induction table with
  | nil => simp [keys]
  | cons row rest ih =>
    obtain ⟨k, v⟩ := row
    unfold put
    by_cases hk : k = key
    · simp [hk, keys]
    · rw [if_neg hk]
      have hmem : key ∈ keys ((k, v) :: rest) ↔ key ∈ keys rest := by simp [keys, Ne.symm hk]
      show k :: keys (put rest key value) = _
      rw [ih]
      by_cases hm : key ∈ keys rest
      · rw [if_pos hm, if_pos (hmem.2 hm)]; rfl
      · rw [if_neg hm, if_neg (hmem.not.2 hm)]; rfl

theorem mem_put {table : Table κ ν} {key : κ} {value : ν} {row : κ × ν} (h : row ∈ table.put key value) :
    row = (key, value) ∨ row ∈ table := by
  induction table with
  | nil => exact .inl (List.mem_singleton.1 h)
  | cons first rest ih =>
    unfold put at h
    split at h
    · rename_i hk
      rcases List.mem_cons.1 h with rfl | h
      · exact .inl (by rw [hk])
      · exact .inr (List.mem_cons_of_mem _ h)
    · rcases List.mem_cons.1 h with rfl | h
      · exact .inr (List.mem_cons_self ..)
      · exact (ih h).imp_right (List.mem_cons_of_mem _)

theorem put_of_not_mem {table : Table κ ν} {key : κ} (h : key ∉ table.keys) (value : ν) :
    table.put key value = table ++ [(key, value)] := by
  induction table with
  | nil => rfl
  | cons row rest ih =>
    obtain ⟨k, v⟩ := row
    have h' : key ≠ k ∧ key ∉ keys rest := by simpa [keys] using h
    unfold put
    rw [if_neg h'.1.symm, ih h'.2]
    rfl

theorem nodup_put {table : Table κ ν} (hn : table.keys.Nodup) (key : κ) (value : ν) :
    (table.put key value).keys.Nodup := by
  rw [keys_put]
  split
  · exact hn
  · rename_i hk
    exact List.nodup_append.2 ⟨hn, List.nodup_singleton _, fun a ha b hb => by
      rw [List.mem_singleton] at hb; subst hb; rintro rfl; exact hk ha⟩

theorem nodup_erase {table : Table κ ν} (hn : table.keys.Nodup) (key : κ) : (table.erase key).keys.Nodup :=
  hn.sublist (List.filter_sublist.map _)

theorem get?_alter (table : Table κ ν) (key other : κ) (f : Option ν → ν) :
    (table.alter key f).get? other = if key = other then some (f (table.get? key)) else table.get? other :=
  get?_put table key other _

theorem get?_erase (table : Table κ ν) (key other : κ) :
    (table.erase key).get? other = if key = other then none else table.get? other := by
  induction table with
  | nil => simp [erase]
  | cons row rest ih =>
    obtain ⟨k, v⟩ := row
    unfold erase at ih ⊢
    by_cases hk : k = key
    · subst hk
      rw [List.filter_cons_of_neg (by simp), ih]
      by_cases ho : k = other <;> simp [get?, ho]
    · rw [List.filter_cons_of_pos (by simpa using hk)]
      unfold get?
      by_cases ho : k = other
      · subst ho; simp [Ne.symm hk]
      · rw [if_neg ho, if_neg ho, ih]

theorem get?_mapValues {μ : Type} (table : Table κ ν) (f : ν → μ) (key : κ) :
    get? (table.map fun row => (row.1, f row.2)) key = (table.get? key).map f := by
  induction table with
  | nil => rfl
  | cons row rest ih =>
    obtain ⟨k, v⟩ := row
    simp only [List.map_cons, get?]
    split
    · rfl
    · exact ih

/-- Rows that are dropped or get another value: each key has what its own row gives. -/
theorem get?_filterMap {μ : Type} {table : Table κ ν} (hn : table.keys.Nodup) (f : κ × ν → Option μ) (key : κ) :
    get? (table.filterMap fun row => (f row).map (row.1, ·)) key = (table.get? key).bind fun value => f (key, value) := by
  induction table with
  | nil => rfl
  | cons row rest ih =>
    obtain ⟨k, v⟩ := row
    have hn' : k ∉ keys rest ∧ (keys rest).Nodup := List.nodup_cons.1 hn
    have hrest := ih hn'.2
    by_cases hk : k = key
    · subst hk
      -- no later row has this key, so a row that is dropped leaves nothing
      rw [(get?_eq_none_iff rest k).2 hn'.1] at hrest
      rcases hf : f (k, v) with _ | value
      · rw [List.filterMap_cons_none (by simp [hf]), hrest]
        simp [get?, hf]
      · rw [List.filterMap_cons_some (b := (k, value)) (by simp [hf])]
        simp [get?, hf]
    · rcases hf : f (k, v) with _ | value
      · rw [List.filterMap_cons_none (by simp [hf]), hrest]
        simp [get?, hk]
      · rw [List.filterMap_cons_some (b := (k, value)) (by simp [hf])]
        simp only [get?, if_neg hk]
        exact hrest

/-! ## Rows for given keys -/

theorem get?_filterMap_keys (keys : List κ) (f : κ → Option ν) (key : κ) :
    get? (keys.filterMap fun k => (f k).map (k, ·)) key = if key ∈ keys then f key else none := by
  induction keys with
  | nil => rfl
  | cons k rest ih =>
    rcases hf : f k with _ | value
    · rw [List.filterMap_cons_none (by simp [hf]), ih]
      by_cases hk : key = k
      · simp [hk, hf]
      · simp [hk]
    · rw [List.filterMap_cons_some (b := (k, value)) (by simp [hf])]
      by_cases hk : key = k
      · simp [get?, hk, hf]
      · simp [get?, hk, Ne.symm hk, ih]

omit [DecidableEq κ] in
theorem keys_filterMap_keys (keys : List κ) (f : κ → Option ν) :
    Table.keys (keys.filterMap fun k => (f k).map (k, ·)) = keys.filter fun k => (f k).isSome := by
  unfold Table.keys
  induction keys with
  | nil => rfl
  | cons k rest ih =>
    rcases hf : f k with _ | value
    · simp [hf, ih]
    · simp [hf, ih]

/-! ## Tables from pairs -/

/-- Setting pairs one after the other: the last pair of a key counts. -/
theorem get?_foldl_put (pairs : List (κ × ν)) (table : Table κ ν) (key : κ) (hn : (pairs.map (·.1)).Nodup) :
    (pairs.foldl (fun t row => put t row.1 row.2) table).get? key =
      (get? pairs key).or (table.get? key) := by
  induction pairs generalizing table with
  | nil => rfl
  | cons row rest ih =>
    obtain ⟨k, v⟩ := row
    have hn' : k ∉ rest.map (·.1) ∧ (rest.map (·.1)).Nodup := List.nodup_cons.1 hn
    rw [List.foldl_cons, ih _ hn'.2, get?_put]
    simp only [get?]
    by_cases hk : k = key
    · subst hk
      have : get? rest k = none := (get?_eq_none_iff rest k).2 hn'.1
      simp [this]
    · simp [hk]

/-- Pairs of new keys are added as they are. -/
theorem foldl_put_of_nodup (pairs : List (κ × ν)) (table : Table κ ν) (hn : (keys (table ++ pairs)).Nodup) :
    pairs.foldl (fun t row => put t row.1 row.2) table = table ++ pairs := by
  induction pairs generalizing table with
  | nil => exact (List.append_nil table).symm
  | cons row rest ih =>
    rw [List.append_cons] at hn
    have hnew : row.1 ∉ table.keys := by
      have hfirst : (keys (table ++ [row])).Nodup := hn.sublist ((List.sublist_append_left _ rest).map _)
      rw [keys, List.map_append] at hfirst
      exact fun hmem => (List.nodup_append.1 hfirst).2.2 _ hmem _ (List.mem_singleton_self _) rfl
    rw [List.foldl_cons, put_of_not_mem hnew, ih _ hn, List.append_assoc]
    rfl

theorem nodup_ofPairs (pairs : List (κ × ν)) : (ofPairs pairs).keys.Nodup := by
  have h : ∀ table : Table κ ν, table.keys.Nodup →
      (pairs.foldl (fun t row => put t row.1 row.2) table).keys.Nodup := by
    induction pairs with
    | nil => exact fun _ hn => hn
    | cons row rest ih => exact fun table hn => ih _ (nodup_put hn row.1 row.2)
  exact h [] List.nodup_nil

theorem get?_ofPairs {pairs : List (κ × ν)} (hn : (pairs.map (·.1)).Nodup) (key : κ) :
    (ofPairs pairs).get? key = get? pairs key := by
  unfold ofPairs
  rw [get?_foldl_put pairs [] key hn]
  simp

end Amend.Table
