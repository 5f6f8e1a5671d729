/-
Grouping by file: a file is a group exactly if some finding names it, its group holds its findings
in the order in which they were reported, no file is a group twice, and groups stand in the order in
which their files were first named. Findings that name no file are complained of one by one, and with
them the groups hold each finding once.
-/
import Amend.Group
import Amend.Proofs.Merge
import Amend.Proofs.Table

namespace Amend

/-- The findings of a file, in the order in which they were reported. -/
def findingsOf (path : String) (ds : List Diagnostic) : List Diagnostic :=
  ds.filter fun d => d.file? = some path

/-- Does a finding name no file? Its path is missing or empty. -/
def Diagnostic.Homeless (d : Diagnostic) : Prop :=
  d.path = none ∨ d.path = some ""

instance (d : Diagnostic) : Decidable d.Homeless :=
  inferInstanceAs (Decidable (_ ∨ _))

theorem Diagnostic.file?_eq_some_iff {d : Diagnostic} {path : String} :
    d.file? = some path ↔ d.path = some path ∧ path ≠ "" := by
  unfold file?
  rw [Option.filter_eq_some_iff, decide_eq_true_eq]

theorem Diagnostic.file?_eq_none_iff {d : Diagnostic} : d.file? = none ↔ d.Homeless := by
  unfold file? Homeless
  rcases d.path with _ | path
  · simp
  · simp

namespace Grouping

theorem findingsOf_append_of_eq {d : Diagnostic} {path : String} (h : d.file? = some path) (ds : List Diagnostic) :
    findingsOf path (ds ++ [d]) = findingsOf path ds ++ [d] := by
  simp [findingsOf, h]

theorem findingsOf_append_of_ne {d : Diagnostic} {path : String} (h : d.file? ≠ some path) (ds : List Diagnostic) :
    findingsOf path (ds ++ [d]) = findingsOf path ds := by
  simp [findingsOf, h]

/-- The state of the grouping after the findings `done`. -/
structure Sorted (done : List Diagnostic) (g : Grouping) : Prop where
  nodup : g.groups.keys.Nodup
  row : ∀ path, g.groups.get? path = if findingsOf path done = [] then none else some (findingsOf path done)

theorem sorted_add {done : List Diagnostic} {g : Grouping} (h : Sorted done g) (d : Diagnostic) :
    Sorted (done ++ [d]) (g.add d) := by
  unfold add
  rcases hf : d.file? with _ | path
  · refine ⟨h.nodup, fun other => ?_⟩
    rw [findingsOf_append_of_ne (by rw [hf]; simp)]
    exact h.row other
  · refine ⟨Table.nodup_put h.nodup _ _, fun other => ?_⟩
    rw [Table.get?_alter]
    by_cases ho : path = other
    · subst ho
      rw [if_pos rfl, findingsOf_append_of_eq hf, h.row]
      split
      · rename_i he; simp [he]
      · simp
    · rw [if_neg ho, findingsOf_append_of_ne (by rw [hf]; simpa using ho)]
      exact h.row other

theorem sorted_ofDiagnostics (ds : List Diagnostic) : Sorted ds (ofDiagnostics ds) := by
  unfold ofDiagnostics
  induction ds using List.reverseRecOn with
  | nil => exact ⟨List.nodup_nil, fun _ => rfl⟩
  | append_singleton ds d ih =>
    rw [List.foldl_append]
    exact sorted_add ih d

theorem nodup_groups (ds : List Diagnostic) : (ofDiagnostics ds).groups.keys.Nodup :=
  (sorted_ofDiagnostics ds).nodup

/-- A file's group, if it has findings at all, is all of its findings. -/
theorem mem_groups_iff (ds : List Diagnostic) (path : String) (fs : List Diagnostic) :
    (path, fs) ∈ (ofDiagnostics ds).groups ↔ findingsOf path ds ≠ [] ∧ fs = findingsOf path ds := by
  have h := sorted_ofDiagnostics ds
  constructor
  · intro hm
    have hg := Table.get?_of_mem h.nodup hm
    rw [h.row] at hg
    split at hg
    · cases hg
    · rename_i hne; cases hg; exact ⟨hne, rfl⟩
  · rintro ⟨hne, rfl⟩
    exact Table.mem_of_get? (by rw [h.row, if_neg hne])

theorem mem_keys_groups_iff (ds : List Diagnostic) (path : String) :
    path ∈ (ofDiagnostics ds).groups.keys ↔ findingsOf path ds ≠ [] := by
  rw [Table.mem_keys_iff]
  simp only [(sorted_ofDiagnostics ds).row]
  split <;> simp_all

/-! ## Order -/

theorem add_of_none {d : Diagnostic} (h : d.file? = none) (g : Grouping) :
    g.add d = ⟨g.groups, g.missing ++ [⟨d⟩]⟩ := by
  simp [add, h]

theorem add_of_some {d : Diagnostic} {path : String} (h : d.file? = some path) (g : Grouping) :
    g.add d = ⟨g.groups.alter path fun ds => ds.getD [] ++ [d], g.missing⟩ := by
  simp [add, h]

theorem keys_groups (ds : List Diagnostic) :
    (ofDiagnostics ds).groups.keys = firstOccurrences (ds.filterMap (·.file?)) := by
  induction ds using List.reverseRecOn with
  | nil => rfl
  | append_singleton ds d ih =>
    have hlast : ofDiagnostics (ds ++ [d]) = (ofDiagnostics ds).add d := List.foldl_append ..
    rw [hlast, List.filterMap_append]
    rcases hf : d.file? with _ | path
    · simp [add_of_none hf, hf, ih]
    · have hone : [d].filterMap (·.file?) = [path] := by simp [hf]
      rw [add_of_some hf, hone, firstOccurrences_concat]
      unfold Table.alter
      rw [Table.keys_put, ih]
      simp only [mem_firstOccurrences]

theorem groups_eq (ds : List Diagnostic) :
    (ofDiagnostics ds).groups =
      (firstOccurrences (ds.filterMap (·.file?))).map fun path => (path, findingsOf path ds) := by
  rw [← keys_groups, Table.keys, List.map_map]
  symm
  refine (List.map_congr_left fun row hrow => ?_).trans (List.map_id _)
  exact Prod.ext rfl ((mem_groups_iff ds row.1 row.2).1 hrow).2.symm

theorem missing_ofDiagnostics (ds : List Diagnostic) :
    (ofDiagnostics ds).missing = (ds.filter (·.file? = none)).map MissingFile.mk := by
  induction ds using List.reverseRecOn with
  | nil => rfl
  | append_singleton ds d ih =>
    have hlast : ofDiagnostics (ds ++ [d]) = (ofDiagnostics ds).add d := List.foldl_append ..
    rw [hlast, List.filter_append, List.map_append, ← ih]
    rcases hf : d.file? with _ | path
    · simp [add_of_none hf, hf]
    · simp [add_of_some hf, hf]

/-- Findings without a file do not show in the groups. -/
theorem groups_filter_isSome (ds : List Diagnostic) :
    (ofDiagnostics (ds.filter (·.file?.isSome))).groups = (ofDiagnostics ds).groups := by
  have hpaths : (ds.filter (·.file?.isSome)).filterMap (·.file?) = ds.filterMap (·.file?) := by
    rw [List.filterMap_filter]
    exact List.filterMap_congr fun d _ => by cases d.file? <;> rfl
  rw [groups_eq, groups_eq, hpaths]
  refine List.map_congr_left fun path _ => Prod.ext rfl ?_
  unfold findingsOf
  rw [List.filter_filter]
  refine List.filter_congr fun d _ => ?_
  by_cases hf : d.file? = some path <;> simp [hf]

theorem missing_filter_isSome (ds : List Diagnostic) : (ofDiagnostics (ds.filter (·.file?.isSome))).missing = [] := by
  rw [missing_ofDiagnostics, List.filter_filter, List.filter_eq_nil_iff.2]
  · rfl
  · intro d _
    cases d.file? <;> simp

/-! ## The partition -/

theorem findingsOf_ne_nil_iff {path : String} {ds : List Diagnostic} :
    findingsOf path ds ≠ [] ↔ path ≠ "" ∧ ∃ d ∈ ds, d.path = some path := by
  unfold findingsOf
  rw [Ne, List.filter_eq_nil_iff]
  push Not
  simp only [decide_eq_true_eq, Diagnostic.file?_eq_some_iff]
  constructor
  · rintro ⟨d, hd, hpath, hne⟩
    exact ⟨hne, d, hd, hpath⟩
  · rintro ⟨hne, d, hd, hpath⟩
    exact ⟨d, hd, hpath, hne⟩

/-- Items by key, for keys that are all different, are the items that have one of the keys. -/
theorem flatMap_filter_perm {α κ : Type} [DecidableEq κ] (keyOf : α → Option κ) (items : List α) {keys : List κ}
    (hn : keys.Nodup) : (keys.flatMap fun k => items.filter (keyOf · = some k)).Perm
      (items.filter fun a => (keyOf a).any (· ∈ keys)) := by
  induction keys with
  | nil =>
    rw [List.filter_eq_nil_iff.2 fun a _ => by simp]
    exact List.Perm.refl _
  | cons k keys ih =>
    obtain ⟨hk, hn⟩ := List.nodup_cons.1 hn
    rw [List.flatMap_cons]
    refine ((ih hn).append_left _).trans ?_
    -- of the items with one of all keys, those with the first one and the rest
    have hsplit := List.filter_append_perm (keyOf · = some k) (items.filter fun a => (keyOf a).any (· ∈ k :: keys))
    rw [List.filter_filter, List.filter_filter] at hsplit
    refine (List.Perm.of_eq ?_).trans hsplit
    congr 1
    · refine List.filter_congr fun a _ => ?_
      rcases keyOf a with _ | key
      · simp
      · by_cases hkey : key = k <;> simp [hkey]
    · refine List.filter_congr fun a _ => ?_
      rcases keyOf a with _ | key
      · simp
      · by_cases hkey : key = k
        · subst hkey
          simp [hk]
        · simp [hkey]

/-- The groups together with the findings that name no file are all findings. -/
theorem groups_perm (ds : List Diagnostic) :
    ((ofDiagnostics ds).groups.values.flatten ++ (ofDiagnostics ds).missing.map (·.diagnostic)).Perm ds := by
  have hvalues : (ofDiagnostics ds).groups.values.flatten =
      (firstOccurrences (ds.filterMap (·.file?))).flatMap fun path => ds.filter (·.file? = some path) := by
    rw [groups_eq, Table.values, List.map_map]
    rfl
  have hmissing : (ofDiagnostics ds).missing.map (·.diagnostic) = ds.filter (·.file? = none) := by
    rw [missing_ofDiagnostics, List.map_map]
    exact List.map_id _
  rw [hvalues, hmissing]
  refine ((flatMap_filter_perm (·.file?) ds (nodup_firstOccurrences _)).append_right _).trans ?_
  refine (List.Perm.of_eq ?_).trans (List.filter_append_perm (fun d => d.file?.isSome) ds)
  congr 1
  · refine List.filter_congr fun d hd => ?_
    rcases hf : d.file? with _ | path
    · rfl
    · have hmem : path ∈ firstOccurrences (ds.filterMap (·.file?)) :=
        (mem_firstOccurrences ..).2 (List.mem_filterMap.2 ⟨d, hd, hf⟩)
      simp [hmem]
  · exact List.filter_congr fun d _ => by cases d.file? <;> rfl

/-- Groups of findings and complaints that hold each finding once. -/
structure Partition (ds : List Diagnostic) (groups : Table String (List Diagnostic))
    (complaints : List MissingFile) : Prop where
  keys : ∀ path, path ∈ groups.keys ↔ path ≠ "" ∧ ∃ d ∈ ds, d.path = some path
  nodup : groups.keys.Nodup
  order : groups.keys.Pairwise fun p q => ds.findIdx (·.path = some p) < ds.findIdx (·.path = some q)
  group : ∀ path fs, (path, fs) ∈ groups → fs = ds.filter (·.path = some path)
  missing : complaints = (ds.filter (·.Homeless)).map MissingFile.mk
  all : (groups.values.flatten ++ complaints.map (·.diagnostic)).Perm ds

theorem partition_ofDiagnostics (ds : List Diagnostic) :
    Partition ds (ofDiagnostics ds).groups (ofDiagnostics ds).missing where
  keys path := (mem_keys_groups_iff ds path).trans findingsOf_ne_nil_iff
  nodup := nodup_groups ds
  order := by
    have hfile : ∀ path ∈ (ofDiagnostics ds).groups.keys, ∀ d : Diagnostic,
        decide (d.file? = some path) = decide (d.path = some path) := by
      intro path hpath d
      have hne := (findingsOf_ne_nil_iff.1 ((mem_keys_groups_iff ds path).1 hpath)).1
      simp [Diagnostic.file?_eq_some_iff, hne]
    have horder := pairwise_firstOccurrences (fun d : Diagnostic => d.file?) ds
    rw [← keys_groups] at horder
    refine horder.imp_of_mem fun {p q} hp hq hpq => ?_
    simp only [hfile p hp, hfile q hq] at hpq
    exact hpq
  group path fs hmem := by
    obtain ⟨hne, rfl⟩ := (mem_groups_iff ds path fs).1 hmem
    have hpath := (findingsOf_ne_nil_iff.1 hne).1
    exact List.filter_congr fun d _ => by simp [Diagnostic.file?_eq_some_iff, hpath]
  missing := by
    rw [missing_ofDiagnostics]
    congr 1
    exact List.filter_congr fun d _ => by simp [Diagnostic.file?_eq_none_iff]
  all := groups_perm ds

/-- Where findings without a file are refused, the first of them is the complaint. -/
theorem strict_eq (ds : List Diagnostic) :
    strict ds = match ds.find? (·.Homeless) with
      | some d => .error ⟨d⟩
      | none => .ok (ofDiagnostics ds).groups := by
  have hmissing := (partition_ofDiagnostics ds).missing
  unfold strict
  rw [← List.head?_filter]
  rcases hhomeless : ds.filter (·.Homeless) with _ | ⟨d, rest⟩
  · simp [hmissing, hhomeless]
  · simp [hmissing, hhomeless]

/-- Grouping by file is a stable partition of the findings: the groups are those of the different files that are
named, in the order in which they are named first, each with the findings of its file as they were reported; and
each finding that names no file is complained of once, in order. Where such findings are refused, the first of
them is the complaint, and without any the groups are the same. -/
theorem grouping_partitions (ds : List Diagnostic) :
    Partition ds (ofDiagnostics ds).groups (ofDiagnostics ds).missing ∧
    (∀ e, strict ds = .error e ↔ ds.find? (·.Homeless) = some e.diagnostic) ∧
    ((∃ e, strict ds = .error e) ↔ ∃ d ∈ ds, d.Homeless) ∧
    (∀ groups, strict ds = .ok groups ↔ (∀ d ∈ ds, ¬ d.Homeless) ∧ groups = (ofDiagnostics ds).groups) := by
  refine ⟨partition_ofDiagnostics ds, ?_⟩
  rcases hfind : ds.find? (·.Homeless) with _ | d
  · have hnone : ∀ d ∈ ds, ¬ d.Homeless := by simpa using hfind
    have hstrict : strict ds = .ok (ofDiagnostics ds).groups := by rw [strict_eq, hfind]
    rw [hstrict, hfind]
    refine ⟨fun e => by simp, by simpa using hnone, fun groups => ?_⟩
    rw [Except.ok.injEq]
    exact ⟨fun h => ⟨hnone, h.symm⟩, fun h => h.2.symm⟩
  · have hd : d.Homeless := by simpa using List.find?_some hfind
    have hmem := List.mem_of_find?_eq_some hfind
    have hstrict : strict ds = .error ⟨d⟩ := by rw [strict_eq, hfind]
    rw [hstrict, hfind]
    refine ⟨fun e => ?_, ⟨fun _ => ⟨d, hmem, hd⟩, fun _ => ⟨⟨d⟩, rfl⟩⟩, fun groups => ?_⟩
    · rw [Except.error.injEq, Option.some.injEq]
      exact ⟨fun h => h ▸ rfl, fun h => h ▸ rfl⟩
    · exact ⟨(nomatch ·), fun h => absurd hd (h.1 d hmem)⟩

/-- Two files whose findings alternate, with a finding between them that names no file. -/
example : ofDiagnostics [⟨"E1", some "b", 0, 1, ""⟩, ⟨"E2", some "", 0, 1, ""⟩, ⟨"E3", some "a", 0, 1, ""⟩,
    ⟨"E4", some "b", 2, 1, ""⟩] =
    ⟨[("b", [⟨"E1", some "b", 0, 1, ""⟩, ⟨"E4", some "b", 2, 1, ""⟩]), ("a", [⟨"E3", some "a", 0, 1, ""⟩])],
      [⟨⟨"E2", some "", 0, 1, ""⟩⟩]⟩ := by
  rfl

end Grouping

end Amend
