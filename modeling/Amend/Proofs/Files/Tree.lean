/-
What writing does to a tree of files. A write that succeeds sets one node, which is no folder; so
all folders stay, and a name that led to a place leads there ever after. A write to a file that is
there already does not even change what is a file and what a folder.
-/
import Amend.Files.Writer

namespace Amend

open Codec (Bytes)

namespace FileTree

variable {tree tree' : FileTree} {path : FilePath} {bytes : Bytes}

/-! ## Nodes -/

theorem node?_set {place : List String} (hp : place ≠ []) (node : Node) (other : List String) :
    (tree.set place node).node? other = if place = other then some node else tree.node? other := by
  unfold node? set
  by_cases ho : other = []
  · subst ho
    rw [if_neg hp]; rfl
  · have he : other.isEmpty = false := by simpa using ho
    simp only [he, Table.get?_put]
    rfl

theorem ne_nil_of_node? {place : List String} (h : tree.node? place ≠ some .folder) : place ≠ [] := by
  rintro rfl
  exact h rfl

/-- A write that succeeds gives the place of its name the bytes. -/
theorem write_ok_iff : tree.write path bytes = .ok tree' ↔
    ∃ place, tree.place path = .ok place ∧ tree.node? place ≠ some .folder ∧ tree' = tree.set place (.file bytes) := by
  unfold write
  rcases hp : tree.place path with fault | place
  · simp [bind, Except.bind]
  · simp only [bind, Except.bind, Except.ok.injEq, exists_eq_left']
    split
    · rename_i hn
      simp [hn]
    · rename_i hn
      have hn' : tree.node? place ≠ some .folder := hn
      simp only [pure, Except.pure, Except.ok.injEq, ne_eq, hn', not_false_eq_true, true_and]
      exact eq_comm

/-- A file is read exactly if its name leads to one. -/
theorem read_eq_ok_iff : tree.read path = .ok bytes ↔
    ∃ place, tree.place path = .ok place ∧ tree.node? place = some (.file bytes) := by
  unfold read
  rcases tree.place path with fault | place
  · exact ⟨nofun, nofun⟩
  · simp only [bind, Except.bind, Except.ok.injEq, exists_eq_left']
    rcases tree.node? place with _ | ⟨found⟩ | _
    · exact ⟨nofun, nofun⟩
    · exact ⟨fun h => by cases h; rfl, fun h => by cases h; rfl⟩
    · exact ⟨nofun, nofun⟩

theorem exists?_of_place {place : List String} (h : tree.place path = .ok place) :
    tree.exists? path = .ok (tree.node? place).isSome := by
  unfold exists?
  rw [h]

/-! ## Places -/

/-- A tree that has all folders of another and starts relative names from the same one. -/
structure Keeps (tree tree' : FileTree) : Prop where
  cwd : tree'.cwd = tree.cwd
  folder : ∀ place, tree.node? place = some .folder → tree'.node? place = some .folder

theorem keeps_set {place : List String} (h : tree.node? place ≠ some .folder) (node : Node) :
    Keeps tree (tree.set place node) := by
  refine ⟨rfl, fun other ho => ?_⟩
  rw [node?_set (ne_nil_of_node? h), if_neg (by rintro rfl; exact h ho)]
  exact ho

theorem Keeps.follow (h : Keeps tree tree') {segments : List String} : ∀ {here place : List String},
    tree.follow here segments = .ok place → tree'.follow here segments = .ok place := by
  induction segments with
  | nil => exact fun hf => hf
  | cons segment rest ih =>
    intro here place hf
    unfold FileTree.follow at hf ⊢
    split at hf
    · cases hf
    · cases hf
    · rename_i hn
      rw [h.folder here hn]
      simp only
      by_cases hup : segment = ".."
      · rw [if_pos hup] at hf ⊢
        exact ih hf
      · rw [if_neg hup] at hf ⊢
        by_cases hlong : segment.utf8ByteSize > longestSegment
        · rw [if_pos hlong] at hf; cases hf
        · rw [if_neg hlong] at hf ⊢
          exact ih hf

/-- A name that leads to a place still does when no folder is lost. -/
theorem Keeps.place (h : Keeps tree tree') {place : List String} (hp : tree.place path = .ok place) :
    tree'.place path = .ok place := by
  unfold FileTree.place at hp ⊢
  by_cases hnul : path.hasNul
  · rw [if_pos hnul] at hp; cases hp
  · rw [if_neg hnul] at hp ⊢
    by_cases hlong : path.text.utf8ByteSize > longestName
    · rw [if_pos hlong] at hp; cases hp
    · rw [if_neg hlong] at hp ⊢
      rcases hf : tree.follow (if path.isAbsolute then [] else tree.cwd) path.segments with fault | found
      · rw [hf] at hp; cases hp
      · rw [hf] at hp; cases hp
        rw [h.cwd, h.follow hf]; rfl

/-- Trees in which the same names are files, and the same are folders. -/
structure SameShape (tree tree' : FileTree) : Prop where
  cwd : tree'.cwd = tree.cwd
  folder : ∀ place, tree'.node? place = some .folder ↔ tree.node? place = some .folder
  none : ∀ place, tree'.node? place = none ↔ tree.node? place = none

theorem SameShape.refl (tree : FileTree) : SameShape tree tree :=
  ⟨rfl, fun _ => Iff.rfl, fun _ => Iff.rfl⟩

theorem SameShape.trans {tree'' : FileTree} (h : SameShape tree tree') (h' : SameShape tree' tree'') :
    SameShape tree tree'' :=
  ⟨h'.cwd.trans h.cwd, fun p => (h'.folder p).trans (h.folder p), fun p => (h'.none p).trans (h.none p)⟩

/-- Writing to a file that is there changes no shape. -/
theorem sameShape_set {place : List String} {old : Bytes} (h : tree.node? place = some (.file old)) (new : Bytes) :
    SameShape tree (tree.set place (.file new)) := by
  have hne : place ≠ [] := ne_nil_of_node? (by rw [h]; simp : tree.node? place ≠ some .folder)
  refine ⟨rfl, fun other => ?_, fun other => ?_⟩
  · rw [node?_set hne]
    split
    · rename_i he; rw [← he, h]; simp
    · exact Iff.rfl
  · rw [node?_set hne]
    split
    · rename_i he; rw [← he, h]; simp
    · exact Iff.rfl

theorem SameShape.follow (h : SameShape tree tree') (segments : List String) : ∀ here : List String,
    tree'.follow here segments = tree.follow here segments := by
  induction segments with
  | nil => exact fun _ => rfl
  | cons segment rest ih =>
    intro here
    unfold FileTree.follow
    rcases hn : tree.node? here with _ | node
    · rw [(h.none here).2 hn]
    · cases node with
      | folder => simp only [(h.folder here).2 hn, ih]
      | file bytes =>
        rcases hn' : tree'.node? here with _ | node'
        · rw [(h.none here).1 hn'] at hn; cases hn
        · cases node' with
          | folder => rw [(h.folder here).1 hn'] at hn; cases hn
          | file bytes' => rfl

theorem SameShape.place (h : SameShape tree tree') (path : FilePath) : tree'.place path = tree.place path := by
  unfold FileTree.place
  rw [h.cwd, h.follow]

/-- In trees of one shape the same writes succeed. -/
theorem SameShape.write (h : SameShape tree tree') (path : FilePath) (bytes : Bytes) :
    (∃ place, tree.write path bytes = .ok (tree.set place (.file bytes)) ∧
      tree'.write path bytes = .ok (tree'.set place (.file bytes))) ∨
    ∃ fault, tree.write path bytes = .error fault ∧ tree'.write path bytes = .error fault := by
  unfold FileTree.write
  rw [h.place]
  rcases tree.place path with fault | place
  · exact .inr ⟨fault, rfl, rfl⟩
  · simp only [bind, Except.bind]
    by_cases hn : tree.node? place = some .folder
    · rw [hn, (h.folder place).2 hn]
      exact .inr ⟨_, rfl, rfl⟩
    · have hn' : tree'.node? place ≠ some .folder := fun he => hn ((h.folder place).1 he)
      refine .inl ⟨place, ?_, ?_⟩
      · split
        · contradiction
        · rfl
      · split
        · contradiction
        · rfl

end FileTree

/-! ## Writing texts -/

/-- Writing a text leaves the tree alone, or sets the node of its file. -/
theorem writeText_tree (codecs : Codecs) (tree : FileTree) (path : String) (target : FilePath)
    (encoding content : String) :
    (writeText codecs tree path target encoding content).2 = tree ∨
    ∃ place bytes, tree.place target = .ok place ∧ tree.node? place ≠ some .folder ∧
      (writeText codecs tree path target encoding content).2 = tree.set place (.file bytes) := by
  unfold writeText
  split
  · exact .inl rfl
  · split
    · exact .inl rfl
    · exact .inl rfl
    · rename_i emptied hw
      obtain ⟨place, hp, hn, rfl⟩ := FileTree.write_ok_iff.1 hw
      split
      · exact .inr ⟨place, [], hp, hn, rfl⟩
      · split
        · exact .inr ⟨place, [], hp, hn, rfl⟩
        · exact .inr ⟨place, [], hp, hn, rfl⟩
        · rename_i bytes _
          refine .inr ⟨place, bytes, hp, hn, ?_⟩
          rw [FileTree.write_ok_iff.2 ⟨place, hp, hn, rfl⟩]
          rfl

/-- Whether a text can be written depends on the shape of the tree alone. -/
theorem writeText_result (codecs : Codecs) {tree tree' : FileTree} (h : FileTree.SameShape tree tree') (path : String)
    (target : FilePath) (encoding content : String) :
    (writeText codecs tree' path target encoding content).1 = (writeText codecs tree path target encoding content).1 := by
  unfold writeText
  split
  · rfl
  · rcases h.write target [] with ⟨place, h1, h2⟩ | ⟨fault, h1, h2⟩
    · rw [h1, h2]
      simp only
      split
      · rfl
      · split <;> rfl
    · rw [h1, h2]
      cases fault <;> rfl

end Amend
