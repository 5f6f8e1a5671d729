/-
Loading a written file afresh. The writer of a run that is given none writes UTF-8 whatever the
encoding of the loader is. So after the run a written file holds the UTF-8 of the merged text of
the last of its names to be written, and loading it afresh gives this text back exactly if the
loader's encoding reads it back from UTF-8.
-/
import Amend.Proofs.Codec.Registry
import Amend.Proofs.Files.Tree
import Amend.Proofs.Run.Writes

namespace Amend.Run

open Codec (Bytes Encoding)

/-! ## The default writer -/

/-- The default writer gives the file of a name the UTF-8 of the text, or leaves the files alone. -/
theorem defaultWriter_cases (loader : Loader) (tree : FileTree) (path content : String) :
    (∃ place, tree.place (loader.resolve path) = .ok place ∧ tree.node? place ≠ some .folder ∧
      ((defaultWriter loader).write tree path content).result = .ok () ∧
      ((defaultWriter loader).write tree path content).tree =
        tree.set place (.file (Codec.Utf8.encode content))) ∨
    ∃ failure, ((defaultWriter loader).write tree path content).result = .error failure ∧
      ((defaultWriter loader).write tree path content).tree = tree := by
  have hnul : ("utf-8".toList.contains '\x00') = false := by decide
  have hname : Encoding.ofName? "utf-8" = some .utf8 := by decide +kernel
  unfold defaultWriter
  simp only [Writer.toFiles, writeText, hnul, Bool.false_eq_true, if_false]
  rcases hw : tree.write (loader.resolve path) [] with fault | emptied
  · cases fault with
    | zeroByte => exact .inr ⟨_, rfl, rfl⟩
    | named fault name => exact .inr ⟨_, rfl, rfl⟩
  -- the file is emptied first, and then given the text
  · obtain ⟨place, hp, hn, rfl⟩ := FileTree.write_ok_iff.1 hw
    have hbytes : tree.write (loader.resolve path) (Codec.Utf8.encode content) =
        .ok (tree.set place (.file (Codec.Utf8.encode content))) := FileTree.write_ok_iff.2 ⟨place, hp, hn, rfl⟩
    refine .inl ⟨place, hp, hn, ?_⟩
    simp [Codecs.find?_encoding hname, Encoding.codec, Encoding.encode, Except.mapError, hbytes, Except.toOption]

/-! ## What stands in the files after the run -/

/-- The place of a name holds the UTF-8 of a text that the writer was given for a name of this
place, and was given with success. -/
def Holds (setup : Setup) (loader : Loader) (works : List Work) (tree : FileTree) (path : String) : Prop :=
  ∃ place, tree.place (loader.resolve path) = .ok place ∧ ∃ v ∈ works, ∃ content,
    tree.place (loader.resolve v.path) = .ok place ∧ ⟨v.path, content, .ok ()⟩ ∈ (v.journal setup).calls ∧
    tree.node? place = some (.file (Codec.Utf8.encode content))

section Files

variable {setup : Setup} {loader : Loader}

theorem Holds.keep {works more : List Work} {tree : FileTree} {path : String}
    (h : Holds setup loader works tree path) : Holds setup loader (works ++ more) tree path := by
  obtain ⟨place, hp, v, hv, content, hrest⟩ := h
  exact ⟨place, hp, v, List.mem_append_left _ hv, content, hrest⟩

section Set

variable {works : List Work} {v : Work} {place : List String} {new path : String}
  (hp : v.tree.place (loader.resolve v.path) = .ok place) (hn : v.tree.node? place ≠ some .folder)
  (hcall : ⟨v.path, new, .ok ()⟩ ∈ (v.journal setup).calls)
include hp hn hcall

/-- A file that is given a text holds it under each of its names. -/
theorem holds_set (hpath : v.tree.place (loader.resolve path) = .ok place) :
    Holds setup loader (works ++ [v]) (v.tree.set place (.file (Codec.Utf8.encode new))) path := by
  have hkeeps := FileTree.keeps_set hn (.file (Codec.Utf8.encode new))
  refine ⟨place, hkeeps.place hpath, v, by simp, new, hkeeps.place hp, hcall, ?_⟩
  rw [FileTree.node?_set (FileTree.ne_nil_of_node? hn), if_pos rfl]

theorem Holds.set (h : Holds setup loader works v.tree path) :
    Holds setup loader (works ++ [v]) (v.tree.set place (.file (Codec.Utf8.encode new))) path := by
  obtain ⟨there, hthere, u, hu, old, huplace, hucall, hunode⟩ := h
  by_cases he : place = there
  -- another name of the same file: it now holds the new text
  · exact holds_set hp hn hcall (he ▸ hthere)
  · have hkeeps := FileTree.keeps_set hn (.file (Codec.Utf8.encode new))
    refine ⟨there, hkeeps.place hthere, u, List.mem_append_left _ hu, old, hkeeps.place huplace, hucall, ?_⟩
    rw [FileTree.node?_set (FileTree.ne_nil_of_node? hn), if_neg he, hunode]

end Set

/-- After works one after the other, every name that was written holds what was written last. -/
theorem holds_chain (hwriter : setup.writer = defaultWriter loader) {start : FileTree} (works : List Work) :
    ∀ final, Chain setup start works final →
      ∀ w ∈ works, ∀ content, ⟨w.path, content, .ok ()⟩ ∈ (w.journal setup).calls →
        Holds setup loader works final w.path := by
  induction works using List.reverseRecOn with
  | nil => simp
  | append_singleton works v ih =>
    intro final hchain w hw content hcall
    obtain ⟨mid, hworks, rfl, rfl⟩ := chain_append.1 hchain
    rcases v.write_cases setup with ⟨hnone, hsame⟩ | ⟨document, new, -, hcalls, hafter⟩
    · rw [hsame]
      rcases List.mem_append.1 hw with hw | hw
      · exact (ih _ hworks w hw content hcall).keep
      · rw [List.mem_singleton.1 hw, hnone] at hcall
        cases hcall
    · rw [hafter]
      rw [hwriter] at hcalls ⊢
      rcases defaultWriter_cases loader v.tree v.path new with ⟨place, hp, hn, hok, htree⟩ | ⟨failure, herr, htree⟩
      · rw [htree]
        have hcall' : ⟨v.path, new, .ok ()⟩ ∈ (v.journal setup).calls := by
          rw [hcalls, hok]
          exact List.mem_singleton_self _
        rcases List.mem_append.1 hw with hw | hw
        · exact (ih _ hworks w hw content hcall).set hp hn hcall'
        · rw [List.mem_singleton.1 hw]
          exact holds_set hp hn hcall' hp
      · rw [htree]
        rcases List.mem_append.1 hw with hw | hw
        · exact (ih _ hworks w hw content hcall).keep
        · rw [List.mem_singleton.1 hw, hcalls, herr] at hcall
          cases List.mem_singleton.1 hcall

end Files

/-! ## Loading afresh -/

/-- A fresh loader gives the text that its encoding makes of the bytes of the file. -/
theorem load_new_ok_iff {root : Option FilePath} {name : String} {e : Encoding} (hnul : '\x00' ∉ name.toList)
    (hname : Encoding.ofName? name = some e) {tree : FileTree} {path : String} {place : List String} {bytes : Bytes}
    (hplace : tree.place ((Loader.new root name).resolve path) = .ok place)
    (hnode : tree.node? place = some (.file bytes)) (text : String) :
    ((Loader.new root name).load tree path).1 = .ok ⟨path, text⟩ ↔ e.decode bytes = .ok text := by
  have hread : tree.read ((Loader.new root name).resolve path) = .ok bytes := by
    unfold FileTree.read
    rw [hplace]
    simp [bind, Except.bind, hnode, pure, Except.pure]
  have hload : ((Loader.new root name).load tree path).1 = (Loader.new root name).fetch tree path := by
    rcases (Loader.new root name).load_cases tree path with ⟨d, hk, -⟩ | ⟨d, -, hf, h⟩ | ⟨fault, -, hf, h⟩
    · cases hk
    · rw [h, hf]
    · rw [h, hf]
  rw [hload]
  exact (Loader.new root name).fetch_ok_iff tree path hnul (Codecs.find?_encoding hname) hread text

/-- After a run with the default writer, a file that the summary gives as written holds the merged text
of one of its written names, and loading the file afresh gives this text back exactly if the encoding
of the loader reads it back from UTF-8. -/
theorem reload_written (setup : Setup) (ws : Workspace) (hwriter : setup.writer = defaultWriter ws.loader)
    {e : Encoding} (hnul : '\x00' ∉ ws.loader.encoding.toList) (hname : Encoding.ofName? ws.loader.encoding = some e)
    (schedule : List Turn) (ds : List Diagnostic) {f : String}
    (hf : f ∈ (overFindings setup schedule ws ds).1.writtenPaths) :
    ∃ g ∈ (overFindings setup schedule ws ds).1.writtenPaths, ∃ place document r,
      (overFindings setup schedule ws ds).2.2.tree.place (ws.loader.resolve f) = .ok place ∧
      (overFindings setup schedule ws ds).2.2.tree.place (ws.loader.resolve g) = .ok place ∧
      (overFindings setup schedule ws ds).2.2.loader.kept? g = some document ∧
      (chosen setup document (findingsOf g ds)).ending = .ok () ∧
      (chosen setup document (findingsOf g ds)).patches.apply document = .ok r ∧
      (((Loader.new ws.loader.root ws.loader.encoding).load (overFindings setup schedule ws ds).2.2.tree f).1 =
        .ok ⟨f, r.after⟩ ↔ e.ReadsBack r.after) := by
  obtain ⟨works, hx⟩ := explains_filesRun setup schedule ws ds
  have hwritten := mem_writtenPaths_summarize hx (path_of_mem_missingEvents ds)
  rw [summary_overFindings] at hf ⊢
  rw [workspace_overFindings]
  obtain ⟨w, hw, rfl, hres⟩ := (hwritten f).1 hf
  obtain ⟨content, hcall⟩ := (course setup w).written_iff.1 hres
  obtain ⟨place, hplace, v, hv, new, hvplace, hvcall, hnode⟩ := holds_chain hwriter works _ hx.chain w hw content hcall
  obtain ⟨-, document, r, hm, -, rfl⟩ := ((course setup v).call_iff new).1 ⟨_, hvcall⟩
  have hfindings : v.findings = findingsOf v.path ds := ((Grouping.mem_groups_iff ds _ _).1 (hx.group v hv)).2
  have hchosen : v.selection setup document = chosen setup document (findingsOf v.path ds) := by
    rw [← hfindings]
    exact Work.selection_eq_chosen hm.ending
  refine ⟨v.path, (hwritten v.path).2 ⟨v, hv, rfl, (course setup v).written_iff.2 ⟨_, hvcall⟩⟩, place, document, r,
    hplace, hvplace, (hx.kept v hv document).1 hm.loaded, ?_, ?_, ?_⟩
  · rw [← hchosen]; exact hm.ending
  · rw [← hchosen]; exact hm.apply
  · rw [load_new_ok_iff hnul hname hplace hnode, Codec.decode_utf8_iff]

theorem sample_reload_written : ∃ g ∈ (overFindings sampleSetup [] sampleWorkspace sampleFindings).1.writtenPaths,
    ∃ document r, (overFindings sampleSetup [] sampleWorkspace sampleFindings).2.2.loader.kept? g = some document ∧
      (chosen sampleSetup document (findingsOf g sampleFindings)).patches.apply document = .ok r ∧
      ((Loader.new none "utf-8").load (overFindings sampleSetup [] sampleWorkspace sampleFindings).2.2.tree "a").1 =
        .ok ⟨"a", r.after⟩ := by
  obtain ⟨g, hg, -, document, r, -, -, hkept, -, happly, hload⟩ := reload_written sampleSetup sampleWorkspace rfl
    (by decide) (by decide +kernel : Encoding.ofName? "utf-8" = some .utf8) [] sampleFindings
    (by decide +kernel : "a" ∈ _)
  exact ⟨g, hg, document, r, hkept, happly, hload.2 trivial⟩

/-! ### A file in Latin-1 -/

/-- A file whose first character takes one byte in Latin-1 and two in UTF-8. -/
def latinWorkspace : Workspace :=
  ⟨⟨[(["a"], .file [0xe9, 0x31])], []⟩, Loader.new none "latin-1"⟩

/-- A finding on the character after it. -/
def latinFindings : List Diagnostic :=
  [⟨"E1", some "a", 1, 1, ""⟩]

/-- The run as it is set up without a writer of its own. -/
def latinSetup : Setup :=
  { sampleSetup with writer := defaultWriter latinWorkspace.loader }

/-- The file is given as written with its merged text, and yet is loaded with another one. -/
theorem latin_not_reloaded :
    "a" ∈ (overFindings latinSetup [] latinWorkspace latinFindings).1.writtenPaths ∧
    (overFindings latinSetup [] latinWorkspace latinFindings).2.2.loader.kept? "a" = some ⟨"a", "é1"⟩ ∧
    ((chosen latinSetup ⟨"a", "é1"⟩ (findingsOf "a" latinFindings)).patches.apply ⟨"a", "é1"⟩).toOption.map (·.after) =
      some "éx" ∧
    ((Loader.new none "latin-1").load (overFindings latinSetup [] latinWorkspace latinFindings).2.2.tree "a").1 ≠
      .ok ⟨"a", "éx"⟩ := by
  decide +kernel

end Amend.Run
