/-
A configuration that is written and loaded again. Writing goes well exactly if the folder can be made and
the file be opened. What is loaded then is the configuration that was written, if the text of its data
reads as these; and it bears the name of the file.
-/
import Amend.Proofs.Config
import Amend.Proofs.Config.NormalForm
import Amend.Proofs.Files.Writer
import Amend.Proofs.Yaml.Printer

namespace Amend

open Codec (Bytes)

namespace FileTree

variable {tree tree' : FileTree} {path : FilePath}

/-! ## Folders -/

theorem Keeps.refl (tree : FileTree) : Keeps tree tree :=
  ⟨rfl, fun _ h => h⟩

theorem Keeps.trans {tree'' : FileTree} (h : Keeps tree tree') (h' : Keeps tree' tree'') : Keeps tree tree'' :=
  ⟨h'.cwd.trans h.cwd, fun place hplace => h'.folder place (h.folder place hplace)⟩

theorem keeps_makeFolder (h : tree.makeFolder path = .ok tree') : Keeps tree tree' := by
  unfold makeFolder at h
  rcases hplace : tree.place path with fault | place
  · rw [hplace] at h; cases h
  · rw [hplace] at h
    simp only [bind, Except.bind] at h
    split at h
    · cases h
    · rename_i hnone
      cases h
      exact keeps_set (by rw [hnone]; exact nofun) .folder

/-- A folder that is there already is left as it is. -/
theorem keeps_settleFolder (h : tree.settleFolder path = .ok tree') : Keeps tree tree' := by
  unfold settleFolder at h
  split at h
  · split at h
    · split at h
      · cases h
        exact .refl tree
      · cases h
    · cases h
  · exact keeps_makeFolder h

theorem keeps_makeFolders (depth : Nat) : ∀ {path : FilePath} {tree' : FileTree},
    tree.makeFolders depth path = .ok tree' → Keeps tree tree' := by
  induction depth with
  | zero => exact fun h => keeps_makeFolder h
  | succ depth ih =>
    intro path tree' h
    unfold makeFolders at h
    split at h
    · split at h
      · cases h
      · rcases habove : tree.makeFolders depth path.parent with fault | above
        · rw [habove] at h; cases h
        · rw [habove] at h
          exact (ih habove).trans (keeps_settleFolder h)
    · exact keeps_settleFolder h

theorem keeps_ensureFolder (h : tree.ensureFolder path = .ok tree') : Keeps tree tree' :=
  keeps_makeFolders _ h

end FileTree

namespace Yaml

/-! ## Texts -/

/-- The value of a text that is looked at as a whole. -/
def readText (text : String) : Resolved :=
  read (.ofPortions [text.toList] none)

theorem ofPortions_of_allowed {portions : List (List Char)} (h : ∀ c ∈ portions.flatten, isAllowed c = true) :
    Source.ofPortions portions none = ⟨portions.flatten, none⟩ := by
  have hall : ∀ portion ∈ portions, portion.all isAllowed = true := fun portion hportion =>
    List.all_eq_true.2 fun c hc => h c (List.mem_flatten.2 ⟨portion, hportion, hc⟩)
  have hfirst : (portions.take 2).all (·.all isAllowed) = true :=
    List.all_eq_true.2 fun portion hportion => hall portion (List.mem_of_mem_take hportion)
  have hlater : (portions.drop 2).takeWhile (·.all isAllowed) = portions.drop 2 :=
    List.takeWhile_eq_self_iff.2 fun portion hportion => hall portion (List.mem_of_mem_drop hportion)
  unfold Source.ofPortions
  simp only [hfirst, hlater, List.take_append_drop]
  simp

end Yaml

namespace Config

theorem read_source_encode {text : String} (h : Yaml.Shows text.toList) :
    Yaml.read (source (Codec.Utf8.encode text)) = Yaml.readText text := by
  have hallowed : ∀ c ∈ text.toList, Yaml.isAllowed c = true := fun c hc => (Yaml.isAllowed_of_shows h hc).1
  have hreturn : '\r' ∉ text.toList := fun hc => (Yaml.isAllowed_of_shows h hc).2 rfl
  obtain ⟨hwhole, htext⟩ := Codec.TextStream.portions_encode hreturn
  unfold Yaml.readText
  rw [source_of_whole hwhole, Yaml.ofPortions_of_allowed (by rwa [htext]),
    Yaml.ofPortions_of_allowed (by simpa using hallowed), htext]
  simp

/-! ## Data of configurations -/

theorem simple_group {rows : List (String × Tree)} (h : ∀ row ∈ rows, row.2.Simple) : (group rows).Simple := by
  refine .map ?_ ?_
  · intro entry hentry
    obtain ⟨row, -, rfl⟩ := List.mem_map.1 hentry
    exact .text row.1
  · intro entry hentry
    obtain ⟨row, hrow, rfl⟩ := List.mem_map.1 hentry
    exact h row hrow

theorem simple_texts (items : List String) : (texts items).Simple := by
  refine .list fun item hitem => ?_
  obtain ⟨s, -, rfl⟩ := List.mem_map.1 hitem
  exact .text s

theorem simple_toTree (c : Config) : c.toTree.Simple := by
  apply simple_group
  simp only [List.forall_mem_cons]
  refine ⟨?project, ?analyzer, ?filters, ?run, ?logging, nofun⟩
  case project =>
    apply simple_group
    simp only [List.forall_mem_cons]
    exact ⟨.text _, .text _, nofun⟩
  case analyzer =>
    apply simple_group
    simp only [List.forall_mem_cons]
    exact ⟨.text _, simple_texts _, simple_texts _, simple_texts _, simple_texts _, .bool _, simple_texts _, nofun⟩
  case filters =>
    apply simple_group
    simp only [List.forall_mem_cons]
    exact ⟨simple_texts _, simple_texts _, nofun⟩
  case run =>
    apply simple_group
    simp only [List.forall_mem_cons]
    exact ⟨.int _, .bool _, nofun⟩
  case logging =>
    apply simple_group
    simp only [List.forall_mem_cons]
    exact ⟨.text _, .bool _, nofun⟩

theorem payload_toTree (c : Config) : payload c.toTree = c.toTree := rfl

/-! ## Writing and loading -/

section Store

variable {tree tree' : FileTree} {path : FilePath} {data : Tree}

/-- Writing goes well exactly if the folder can be made and then the file be opened. -/
theorem write_eq_ok_iff : write tree path data = (.ok (), tree') ↔
    ∃ folders, tree.ensureFolder path.parent = .ok folders ∧
      folders.write path (Codec.Utf8.encode (Yaml.print (payload data))) = .ok tree' := by
  unfold write
  rcases tree.ensureFolder path.parent with fault | folders
  · simp
  · simp only [Except.ok.injEq, exists_eq_left']
    rcases folders.write path (Codec.Utf8.encode (Yaml.print (payload data))) with fault | written
    · simp
    · simp

theorem exists?_of_write {bytes : Bytes} (h : tree.write path bytes = .ok tree') : tree'.exists? path = .ok true := by
  obtain ⟨place, hplace, hnode⟩ := FileTree.read_eq_ok_iff.1 (FileTree.read_of_write h)
  rw [FileTree.exists?_of_place hplace, hnode]
  rfl

theorem load_of_read {bytes : Bytes} {c : Config} (h : tree.exists? path = .ok true)
    (hread : tree.read path = .ok bytes) (hbytes : ofBytes path bytes = .ok c) :
    load tree (some path) = .ok { c with path := some (path.resolve tree.cwd) } := by
  simp only [load, h, hread, Except.mapError, bind, Except.bind, hbytes]
  rfl

theorem ofDocument_toTree {c c' : Config} (h : check c.toTree = .valid c') : ofDocument path c.toTree = .ok c' := by
  show (check c.toTree).toExcept.mapError _ = _
  rw [h]
  rfl

/-- The configuration in a file to which the data of one were written. -/
theorem ofBytes_print {c c' : Config} (hcheck : check c.toTree = .valid c')
    (hread : Yaml.readText (Yaml.print c.toTree) = .ok c.toTree) :
    ofBytes path (Codec.Utf8.encode (Yaml.print c.toTree)) = .ok c' := by
  unfold ofBytes
  rw [read_source_encode (Yaml.shows_print (simple_toTree c)), hread]
  exact ofDocument_toTree hcheck

theorem load_of_write {c c' : Config} (hcheck : check c.toTree = .valid c')
    (hread : Yaml.readText (Yaml.print c.toTree) = .ok c.toTree)
    (h : write tree path c.toTree = (.ok (), tree')) :
    load tree' (some path) = .ok { c' with path := some (path.resolve tree.cwd) } := by
  obtain ⟨folders, hfolders, hwrite⟩ := write_eq_ok_iff.1 h
  rw [payload_toTree] at hwrite
  have hload := load_of_read (exists?_of_write hwrite) (FileTree.read_of_write hwrite) (ofBytes_print hcheck hread)
  have hcwd : tree'.cwd = tree.cwd := by
    obtain ⟨place, -, hnode, rfl⟩ := FileTree.write_ok_iff.1 hwrite
    exact (FileTree.keeps_ensureFolder hfolders).cwd
  rwa [hcwd] at hload

end Store

/-- The data of a checked configuration pass the check again and give it again, from no file and with its
codes made normal. So a checked configuration is a normal form exactly if its codes are normal, as they are if
they came in a list or were left out, and as they are the second time. If the text of its data reads as they
are, then the data can be written wherever the folder can be made and the file be opened, and loading the file
gives the same configuration with the file's name. -/
theorem checked_normal_form {data : Tree} {c : Config} (h : check data = .valid c) :
    check c.toTree = .valid c.normal ∧
      (c.normal = { c with path := none } ↔ c.HasNormalCodes) ∧
      (ListsCodes data → c.HasNormalCodes) ∧
      check c.normal.toTree = .valid c.normal ∧
      (Yaml.readText (Yaml.print c.toTree) = .ok c.toTree → ∀ (tree : FileTree) (path : FilePath),
        ((write tree path c.toTree).1 = .ok () ↔
          ∃ folders, tree.ensureFolder path.parent = .ok folders ∧ folders.Writable path) ∧
        ((write tree path c.toTree).1 = .ok () →
          load (write tree path c.toTree).2 (some path) = .ok { c.normal with path := some (path.resolve tree.cwd) })) := by
  have hcheck := check_toTree h
  have hagain : check c.normal.toTree = .valid c.normal := by
    rw [check_toTree hcheck, (normal_normal c).normal_eq]
    rfl
  refine ⟨hcheck, normal_eq_iff c, hasNormalCodes_of_lists h, hagain, fun hread tree path =>
    ⟨⟨?_, ?_⟩, fun hok => ?_⟩⟩
  · intro hok
    obtain ⟨folders, hfolders, hwrite⟩ := write_eq_ok_iff.1 (Prod.ext hok rfl)
    obtain ⟨place, hplace, hnode, -⟩ := FileTree.write_ok_iff.1 hwrite
    exact ⟨folders, hfolders, place, hplace, hnode⟩
  · rintro ⟨folders, hfolders, hopen⟩
    obtain ⟨place, -, -, hwrite⟩ := FileTree.write_of_writable hopen
    exact congrArg Prod.fst (write_eq_ok_iff.2 ⟨folders, hfolders, hwrite _⟩)
  · exact load_of_write hcheck hread (Prod.ext hok rfl)

/-- Codes that are no text, a level in small letters, and a text for the number of workers. -/
def looseData : Tree :=
  group [("filters", group [("codes", .list [.text " e1 ", .int 7])]), ("run", group [("workers", .text "2")]),
    ("logging", group [("level", .text "debug")])]

/-- What they stand for. -/
def looseConfig : Config :=
  { default with filters := ⟨["E1", "7"], []⟩, run := ⟨2, false⟩, logging := ⟨.debug, false⟩ }

theorem loose_data_loads_back :
    check looseData = .valid looseConfig ∧ looseConfig.HasNormalCodes ∧
      Yaml.readText (Yaml.print looseConfig.toTree) = .ok looseConfig.toTree ∧
      load (write ⟨[], []⟩ (.ofString "a/c") looseConfig.toTree).2 (some (.ofString "a/c")) =
        .ok { looseConfig with path := some (.ofString "/a/c") } := by
  have hcheck : check looseData = .valid looseConfig := Shape.Checked.toExcept_eq_ok_iff.1 (by decide +kernel)
  have hread : Yaml.readText (Yaml.print looseConfig.toTree) = .ok looseConfig.toTree := by decide +kernel
  have hwrite : (write ⟨[], []⟩ (.ofString "a/c") looseConfig.toTree).1 = .ok () := by decide +kernel
  obtain ⟨-, hnormal, hlists, -, hstore⟩ := checked_normal_form hcheck
  have hcodes : looseConfig.HasNormalCodes := hlists (by rintro t ⟨⟩; exact ⟨_, rfl⟩)
  have hload := (hstore hread ⟨[], []⟩ (.ofString "a/c")).2 hwrite
  rw [hnormal.2 hcodes] at hload
  exact ⟨hcheck, hcodes, hread, hload⟩

/-- A code in a tuple or in a set is taken as it is, and its configuration is no normal form. A file can
hold such a set. -/
theorem tuple_codes_not_normal :
    (∀ codes ∈ [Tree.tuple [.text " e1 "], Tree.set [.text " e1 "]],
      check (group [("filters", group [("codes", codes)])]) = .valid { default with filters := ⟨[" e1 "], []⟩ }) ∧
    check (Config.toTree { default with filters := ⟨[" e1 "], []⟩ }) = .valid { default with filters := ⟨["E1"], []⟩ } ∧
    Yaml.readText "filters:\n  codes: !!set \x7b\" e1 \"\x7d\n" =
      .ok (group [("filters", group [("codes", .set [.text " e1 "])])]) := by
  refine ⟨?_, Shape.Checked.toExcept_eq_ok_iff.1 (by decide +kernel), by decide +kernel⟩
  simp only [List.forall_mem_cons]
  exact ⟨Shape.Checked.toExcept_eq_ok_iff.1 (by decide +kernel), Shape.Checked.toExcept_eq_ok_iff.1 (by decide +kernel),
    nofun⟩

end Config

end Amend
