/-
Laws of file names. A name in its written form is read back from its text. Following segments leaves no
step to a parent behind; what they lead to is what they lead to in every tree of files, for there are
no links.
-/
import Amend.Files.Tree
import Mathlib.Data.List.Basic

namespace Amend

namespace FilePath

/-! ## Names and their texts -/

theorem pieces_of_not_mem {cs : List Char} (h : '/' ∉ cs) : pieces cs = [cs] := by
  induction cs with
  | nil => rfl
  | cons c rest ih =>
    simp only [List.mem_cons, not_or] at h
    rw [pieces, if_neg (Ne.symm h.1), ih h.2]

theorem pieces_append_slash {cs : List Char} (h : '/' ∉ cs) (rest : List Char) :
    pieces (cs ++ '/' :: rest) = cs :: pieces rest := by
  induction cs with
  | nil => rfl
  | cons c more ih =>
    simp only [List.mem_cons, not_or] at h
    rw [List.cons_append, pieces, if_neg (Ne.symm h.1), ih h.2]

theorem not_mem_of_mem_pieces {cs piece : List Char} (h : piece ∈ pieces cs) : '/' ∉ piece := by
  induction cs generalizing piece with
  | nil =>
    rw [List.mem_singleton.1 h]
    exact List.not_mem_nil
  | cons c rest ih =>
    unfold pieces at h
    split at h
    · rcases List.mem_cons.1 h with rfl | h
      · exact List.not_mem_nil
      · exact ih h
    · rename_i hc
      split at h
      · rw [List.mem_singleton.1 h]
        simpa using Ne.symm hc
      · rename_i first more hp
        rcases List.mem_cons.1 h with rfl | h
        · have hfirst : '/' ∉ first := ih (by rw [hp]; exact List.mem_cons_self ..)
          simpa using ⟨Ne.symm hc, hfirst⟩
        · exact ih (by rw [hp]; exact List.mem_cons_of_mem _ h)

/-- A segment as it can stand between slashes. -/
def IsSegment (s : String) : Prop :=
  s ≠ "" ∧ s ≠ "." ∧ '/' ∉ s.toList

/-- A name in its written form. -/
structure Written (p : FilePath) : Prop where
  slashes : p.slashes ≤ 2
  segments : ∀ s ∈ p.segments, IsSegment s

theorem written_ofString (s : String) : (ofString s).Written := by
  constructor
  · simp only [ofString]
    split
    · omega
    · split <;> omega
  · intro segment h
    obtain ⟨piece, hpiece, hsegment⟩ := List.mem_filterMap.1 h
    split at hsegment
    · cases hsegment
    rename_i hne
    simp only [Bool.or_eq_true, decide_eq_true_eq, not_or] at hne
    cases hsegment
    refine ⟨fun he => hne.1 ?_, fun he => hne.2 ?_, ?_⟩
    · simpa using congrArg String.toList he
    · simpa using congrArg String.toList he
    · rw [String.toList_ofList]
      exact not_mem_of_mem_pieces hpiece

/-- The pieces of segments with slashes between them are these segments. -/
theorem pieces_intercalate {segments : List String} (hne : segments ≠ []) (h : ∀ s ∈ segments, '/' ∉ s.toList) :
    pieces ("/".intercalate segments).toList = segments.map String.toList := by
  induction segments with
  | nil => exact absurd rfl hne
  | cons s rest ih =>
    have hs := h s (List.mem_cons_self ..)
    rcases rest with _ | ⟨next, more⟩
    · rw [String.intercalate_singleton, pieces_of_not_mem hs]
      rfl
    · have htail := ih (List.cons_ne_nil _ _) fun t ht => h t (List.mem_cons_of_mem _ ht)
      rw [String.intercalate_cons_cons, String.toList_append, String.toList_append, List.append_assoc]
      show pieces (s.toList ++ '/' :: ("/".intercalate (next :: more)).toList) = _
      rw [pieces_append_slash hs, htail]
      rfl

theorem pieces_replicate (n : Nat) (cs : List Char) :
    pieces (List.replicate n '/' ++ cs) = List.replicate n [] ++ pieces cs := by
  induction n with
  | zero => rfl
  | succ n ih => rw [List.replicate_succ, List.cons_append, pieces, if_pos rfl, ih, List.replicate_succ, List.cons_append]

theorem takeWhile_intercalate {segments : List String} (h : ∀ s ∈ segments, IsSegment s) (n : Nat) :
    (List.replicate n '/' ++ ("/".intercalate segments).toList).takeWhile (· = '/') = List.replicate n '/' := by
  have hhead : (("/".intercalate segments).toList).takeWhile (· = '/') = [] := by
    rcases segments with _ | ⟨s, rest⟩
    · rfl
    obtain ⟨hne, -, hslash⟩ := h s (List.mem_cons_self ..)
    rcases hs : s.toList with _ | ⟨c, cs⟩
    · exact absurd (String.toList_eq_nil_iff.1 hs) hne
    have hc : c ≠ '/' := by
      rintro rfl
      exact hslash (by rw [hs]; exact List.mem_cons_self ..)
    rcases rest with _ | ⟨next, more⟩
    · rw [String.intercalate_singleton, hs, List.takeWhile_cons_of_neg (by simpa using hc)]
    · rw [String.intercalate_cons_cons, String.toList_append, String.toList_append, hs, List.append_assoc,
        List.cons_append, List.takeWhile_cons_of_neg (by simpa using hc)]
  rw [List.takeWhile_append_of_pos (by simp), hhead, List.append_nil]

/-- A name in its written form is read back from its text. -/
theorem ofString_text {p : FilePath} (h : p.Written) : ofString p.text = p := by
  obtain ⟨slashes, segments⟩ := p
  have hsegments : ∀ s ∈ segments, IsSegment s := h.segments
  have hslashes : slashes ≤ 2 := h.slashes
  by_cases hempty : slashes = 0 ∧ segments = []
  · obtain ⟨rfl, rfl⟩ := hempty
    decide
  have htext : (text ⟨slashes, segments⟩).toList =
      List.replicate slashes '/' ++ ("/".intercalate segments).toList := by
    have hcond : ¬ (decide (slashes = 0) && segments.isEmpty) = true := by simpa using hempty
    simp only [text, if_neg hcond, String.toList_append, String.toList_ofList]
  have hread : (pieces ("/".intercalate segments).toList).filterMap (fun piece =>
      if piece = [] || piece = ['.'] then none else some (String.ofList piece)) = segments := by
    by_cases hne : segments = []
    · subst hne
      rfl
    rw [pieces_intercalate hne fun s hs => (hsegments s hs).2.2, List.filterMap_map]
    refine (List.filterMap_congr fun s hs => ?_).trans List.filterMap_some
    obtain ⟨h1, h2, -⟩ := hsegments s hs
    have h1' : s.toList ≠ [] := fun he => h1 (String.toList_eq_nil_iff.1 he)
    have h2' : s.toList ≠ ['.'] := fun he => h2 (String.toList_inj.1 he)
    simp [h1', h2', String.ofList_toList]
  unfold ofString
  simp only [htext, takeWhile_intercalate hsegments, List.length_replicate, pieces_replicate, List.filterMap_append,
    List.filterMap_replicate, hread]
  obtain rfl | rfl | rfl : slashes = 0 ∨ slashes = 1 ∨ slashes = 2 := by omega
  · simp
  · simp
  · simp

theorem text_ne_empty {p : FilePath} (h : p.Written) : p.text ≠ "" := by
  intro he
  have hp := ofString_text h
  rw [he] at hp
  rw [← hp] at he
  revert he
  decide

theorem text_inj {p q : FilePath} (hp : p.Written) (hq : q.Written) : p.text = q.text ↔ p = q := by
  refine ⟨fun h => ?_, congrArg text⟩
  rw [← ofString_text hp, ← ofString_text hq, h]

/-! ## Following segments -/

theorem walk_cons (folder : List String) (segment : String) (rest : List String) :
    walk folder (segment :: rest) =
      if segment = ".." then walk folder.dropLast rest else walk (folder ++ [segment]) rest := by
  rw [walk.eq_def]
  split
  · contradiction
  · rename_i h
    cases h
    rw [if_pos rfl]
  · rename_i hne h
    cases h
    rw [if_neg hne]

theorem walk_of_not_mem {segments : List String} (h : ".." ∉ segments) : ∀ folder,
    walk folder segments = folder ++ segments := by
  induction segments with
  | nil => exact fun folder => (List.append_nil folder).symm
  | cons segment rest ih =>
    intro folder
    simp only [List.mem_cons, not_or] at h
    rw [walk_cons, if_neg (Ne.symm h.1), ih h.2, List.append_assoc, List.singleton_append]

/-- Steps to a parent are gone, and nothing else is new. -/
theorem mem_walk {segments : List String} {s : String} : ∀ {folder : List String},
    s ∈ walk folder segments → s ∈ folder ∨ s ∈ segments ∧ s ≠ ".." := by
  induction segments with
  | nil => exact fun h => .inl h
  | cons segment rest ih =>
    intro folder h
    rw [walk_cons] at h
    split at h
    · rcases ih h with h | ⟨h, hne⟩
      · exact .inl ((List.dropLast_sublist folder).subset h)
      · exact .inr ⟨List.mem_cons_of_mem _ h, hne⟩
    · rename_i hup
      rcases ih h with h | ⟨h, hne⟩
      · rcases List.mem_append.1 h with h | h
        · exact .inl h
        · rw [List.mem_singleton.1 h]
          exact .inr ⟨List.mem_cons_self .., hup⟩
      · exact .inr ⟨List.mem_cons_of_mem _ h, hne⟩

/-- An absolute name without steps to a parent. -/
structure Resolved (p : FilePath) : Prop where
  slashes : p.slashes = 1
  segments : ∀ s ∈ p.segments, IsSegment s
  up : ".." ∉ p.segments

/-- The place of a name that is taken from a folder. -/
def placeFrom (root p : FilePath) : List String :=
  walk [] (root.join p).segments

section Places

variable {root p : FilePath}

theorem placeFrom_of_absolute (h : p.isAbsolute = true) : placeFrom root p = walk [] p.segments := by
  unfold placeFrom join
  rw [if_pos h]

theorem placeFrom_of_relative (hroot : root.Resolved) (h : p.isAbsolute = false) (hup : ".." ∉ p.segments) :
    placeFrom root p = root.segments ++ p.segments := by
  have hall : ".." ∉ root.segments ++ p.segments := fun hmem => (List.mem_append.1 hmem).elim hroot.up hup
  unfold placeFrom join
  rw [if_neg (by rw [h]; exact Bool.false_ne_true), walk_of_not_mem hall, List.nil_append]

theorem isSegment_of_mem_placeFrom (hroot : root.Resolved) (hp : p.Written) :
    ∀ s ∈ placeFrom root p, IsSegment s ∧ s ≠ ".." := by
  intro s hs
  obtain ⟨hmem, hup⟩ := (mem_walk hs).resolve_left List.not_mem_nil
  refine ⟨?_, hup⟩
  unfold join at hmem
  split at hmem
  · exact hp.segments s hmem
  · exact (List.mem_append.1 hmem).elim (hroot.segments s) (hp.segments s)

end Places

end FilePath

namespace FileTree

theorem follow_eq_walk {tree : FileTree} {segments place : List String} : ∀ {here : List String},
    tree.follow here segments = .ok place → place = FilePath.walk here segments := by
  induction segments with
  | nil =>
    intro here h
    cases h
    rfl
  | cons segment rest ih =>
    intro here h
    unfold follow at h
    rw [FilePath.walk_cons]
    split at h
    · cases h
    · cases h
    · by_cases hup : segment = ".."
      · rw [if_pos hup] at h ⊢
        exact ih h
      · rw [if_neg hup] at h ⊢
        split at h
        · cases h
        · exact ih h

/-- A name taken from the root leads to one place in all trees where it leads to a place at all. -/
theorem place_join {tree : FileTree} {root p : FilePath} {place : List String} (hroot : root.Resolved)
    (h : tree.place (root.join p) = .ok place) : place = root.placeFrom p := by
  have habsolute : (root.join p).isAbsolute = true := by
    unfold FilePath.join
    split
    · assumption
    · unfold FilePath.isAbsolute
      rw [hroot.slashes]
      rfl
  unfold FileTree.place at h
  rw [if_pos habsolute] at h
  split at h
  · cases h
  · split at h
    · cases h
    · rcases hf : tree.follow [] (root.join p).segments with fault | found
      · rw [hf] at h
        cases h
      · rw [hf] at h
        cases h
        exact follow_eq_walk hf

end FileTree

end Amend
