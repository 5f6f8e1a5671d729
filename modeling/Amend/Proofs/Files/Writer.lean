/-
What a write leaves behind. A file is emptied before its bytes are made. So a write is clean, in that the
file then reads as the text or else the writer says that it failed and all files are as they were, exactly
if the names have no zero character and, where the file can be opened, the name of the encoding stands for a
codec that keeps the text. A write that is not clean fails in another way, and it leaves the file empty if
it opened it; or else the codec made bytes of the text that it does not read back.
-/
import Amend.Proofs.Codec.Registry
import Amend.Proofs.Files.Tree

namespace Amend

open Codec (Bytes Encoding)

namespace FileTree

variable {tree : FileTree} {target : FilePath}

/-- A name that can be opened for writing: it leads to a place, and no folder is there. -/
def Writable (tree : FileTree) (target : FilePath) : Prop :=
  ∃ place, tree.place target = .ok place ∧ tree.node? place ≠ some .folder

/-- The file of a name reads as a text in an encoding. -/
def Spells (tree : FileTree) (codecs : Codecs) (target : FilePath) (encoding content : String) : Prop :=
  ∃ bytes codec, tree.read target = .ok bytes ∧ codecs.find? encoding = some codec ∧ codec.decode bytes = .ok content

theorem hasNul_of_place {place : List String} (h : tree.place target = .ok place) : target.hasNul = false := by
  unfold FileTree.place at h
  split at h
  · cases h
  · rename_i hnul
    exact Bool.eq_false_iff.2 hnul

theorem Writable.hasNul (h : tree.Writable target) : target.hasNul = false := by
  obtain ⟨place, hplace, -⟩ := h
  exact hasNul_of_place hplace

theorem place_error {fault : FileFault} (h : tree.place target = .error fault) :
    target.hasNul = true ∧ fault = .zeroByte ∨ target.hasNul = false ∧ ∃ name, fault = .named name target := by
  unfold FileTree.place at h
  split at h
  · rename_i hnul
    cases h
    exact .inl ⟨hnul, rfl⟩
  · rename_i hnul
    refine .inr ⟨Bool.eq_false_iff.2 hnul, ?_⟩
    split at h
    · cases h
      exact ⟨_, rfl⟩
    · rcases hfollow : tree.follow (if target.isAbsolute then [] else tree.cwd) target.segments with name | place
      · rw [hfollow] at h
        cases h
        exact ⟨name, rfl⟩
      · rw [hfollow] at h
        cases h

theorem write_of_writable (h : tree.Writable target) :
    ∃ place, tree.node? place ≠ some .folder ∧ tree.place target = .ok place ∧
      ∀ bytes, tree.write target bytes = .ok (tree.set place (.file bytes)) := by
  obtain ⟨place, hplace, hnode⟩ := h
  exact ⟨place, hnode, hplace, fun bytes => write_ok_iff.2 ⟨place, hplace, hnode, rfl⟩⟩

/-- A name that cannot be opened has a zero character, or something is wrong with it. -/
theorem write_of_not_writable (h : ¬ tree.Writable target) (bytes : Bytes) :
    target.hasNul = true ∧ tree.write target bytes = .error .zeroByte ∨
      target.hasNul = false ∧ ∃ fault, tree.write target bytes = .error (.named fault target) := by
  unfold FileTree.write
  rcases hplace : tree.place target with fault | place
  · rcases place_error hplace with ⟨hnul, rfl⟩ | ⟨hnul, name, rfl⟩
    · exact .inl ⟨hnul, rfl⟩
    · exact .inr ⟨hnul, name, rfl⟩
  · have hfolder : tree.node? place = some .folder := by
      by_contra hnode
      exact h ⟨place, hplace, hnode⟩
    refine .inr ⟨hasNul_of_place hplace, .isFolder, ?_⟩
    simp only [bind, Except.bind, hfolder]

/-- What was written is read. -/
theorem read_of_write {tree' : FileTree} {bytes : Bytes} (h : tree.write target bytes = .ok tree') :
    tree'.read target = .ok bytes := by
  obtain ⟨place, hplace, hnode, rfl⟩ := write_ok_iff.1 h
  refine read_eq_ok_iff.2 ⟨place, (keeps_set hnode _).place hplace, ?_⟩
  rw [node?_set (ne_nil_of_node? hnode), if_pos rfl]

end FileTree

/-! ## Writing a text -/

section Writing

variable {codecs : Codecs} {tree : FileTree} {path encoding content : String} {target : FilePath}

/-- All that can come of writing a text. -/
inductive Writing (codecs : Codecs) (tree : FileTree) (path : String) (target : FilePath) (encoding content : String) :
    Except WriteFault Unit × FileTree → Prop
  | misnamed (fault : WriteFault) (hfault : fault = .zeroInEncoding ∨ fault = .zeroByte)
      (h : '\x00' ∈ encoding.toList ∨ target.hasNul = true) :
      Writing codecs tree path target encoding content (.error fault, tree)
  | refused (fault : NameFault) (hencoding : '\x00' ∉ encoding.toList) (htarget : target.hasNul = false)
      (h : ¬ tree.Writable target) :
      Writing codecs tree path target encoding content (.error (.refused path fault target), tree)
  | emptied (fault : WriteFault) (tree' : FileTree) (hencoding : '\x00' ∉ encoding.toList) (hopen : tree.Writable target)
      (hfault : ∃ kind message, fault.toFailure = .broken kind message)
      (h : ∀ codec, codecs.find? encoding = some codec → ¬ codec.Keeps content) (htree : tree.write target [] = .ok tree') :
      Writing codecs tree path target encoding content (.error fault, tree')
  | written (codec : Codec) (bytes : Bytes) (tree' : FileTree) (hencoding : '\x00' ∉ encoding.toList)
      (hopen : tree.Writable target) (hcodec : codecs.find? encoding = some codec)
      (hbytes : codec.encode content = .ok bytes) (htree : tree.write target bytes = .ok tree') :
      Writing codecs tree path target encoding content (.ok (), tree')

theorem writing (codecs : Codecs) (tree : FileTree) (path : String) (target : FilePath) (encoding content : String) :
    Writing codecs tree path target encoding content (writeText codecs tree path target encoding content) := by
  unfold writeText
  by_cases hzero : '\x00' ∈ encoding.toList
  · rw [if_pos (by simpa using hzero)]
    exact .misnamed _ (.inl rfl) (.inl hzero)
  rw [if_neg (by simpa using hzero)]
  by_cases hopen : tree.Writable target
  · obtain ⟨place, hnode, hplace, hwrite⟩ := FileTree.write_of_writable hopen
    rw [hwrite]
    simp only
    rcases hcodec : codecs.find? encoding with _ | codec
    · exact .emptied _ _ hzero hopen ⟨_, _, rfl⟩ (by simp [hcodec]) (hwrite [])
    have hlost : ∀ fault, codec.encode content = .error fault → ∀ other, codecs.find? encoding = some other →
        ¬ other.Keeps content := by
      rintro fault hfault other hother ⟨bytes, hbytes, -⟩
      rw [hcodec] at hother
      cases hother
      rw [hfault] at hbytes
      cases hbytes
    simp only
    rcases hbytes : codec.encode content with (fault | fault) | bytes
    · exact .emptied _ _ hzero hopen ⟨_, _, rfl⟩ (hlost _ hbytes) (hwrite [])
    · exact .emptied _ _ hzero hopen ⟨_, _, rfl⟩ (hlost _ hbytes) (hwrite [])
    · refine .written codec bytes _ hzero hopen hcodec hbytes ?_
      rw [hwrite]
      rfl
  · rcases FileTree.write_of_not_writable hopen [] with ⟨hnul, hwrite⟩ | ⟨hnul, fault, hwrite⟩
    · rw [hwrite]
      exact .misnamed _ (.inr rfl) (.inr hnul)
    · rw [hwrite]
      exact .refused fault hzero hnul hopen

end Writing

namespace Writer

/-! ## Clean writes -/

/-- A write that does what it was to do, or that the writer says has failed while all files are as they were. -/
def Clean (codecs : Codecs) (tree : FileTree) (target : FilePath) (encoding content : String) (r : WriteResult) : Prop :=
  r.result = .ok () ∧ r.tree.Spells codecs target encoding content ∨
    (∃ message, r.result = .error (.unwritten message)) ∧ r.tree = tree

/-- A write that fails in another way than the writer answers for. -/
def Breaks (r : WriteResult) : Prop :=
  ∃ kind message, r.result = .error (.broken kind message)

theorem Breaks.not_clean {codecs : Codecs} {tree : FileTree} {target : FilePath} {encoding content : String}
    {r : WriteResult} (h : Breaks r) : ¬ Clean codecs tree target encoding content r := by
  obtain ⟨kind, message, h⟩ := h
  rintro (⟨hok, -⟩ | ⟨⟨_, herror⟩, -⟩)
  · rw [h] at hok
    cases hok
  · rw [h] at herror
    cases herror

/-- A write that succeeds is clean if the codec reads back the bytes of the file. -/
theorem clean_ok_iff {codecs : Codecs} {tree tree' : FileTree} {target : FilePath} {encoding : String} {codec : Codec}
    {bytes : Bytes} (content : String) (notes : List LogLine) (hcodec : codecs.find? encoding = some codec)
    (htree : tree.write target bytes = .ok tree') :
    Clean codecs tree target encoding content ⟨.ok (), tree', notes⟩ ↔ codec.decode bytes = .ok content := by
  have hread := FileTree.read_of_write htree
  unfold Clean FileTree.Spells
  simp [hread, hcodec]

/-- A codec that names an encoding keeps what the encoding has. -/
theorem kept_iff_has {codecs : Codecs} {name content : String} {e : Encoding} (h : Encoding.ofName? name = some e) :
    (∃ codec, codecs.find? name = some codec ∧ codec.Keeps content) ↔ e.Has content := by
  rw [Codecs.find?_encoding h, ← Codec.keeps_codec_iff]
  simp

/-- A write is clean exactly if its names have no zero character and, where the file can be opened, the name
of the encoding stands for a codec that keeps the text, which for an encoding is one that it has. A write
that succeeds touches no other file. One that is not clean fails in a way that the writer does not answer
for, and leaves all files as they were because of a zero character, or else it leaves its file empty; or it
succeeds, in no encoding, and its file holds bytes that the codec does not read back. -/
theorem write_clean_iff (codecs : Codecs) (target : String → FilePath) (encoding : String) (tree : FileTree)
    (path content : String) :
    let r := (toFiles codecs target encoding).write tree path content
    (Clean codecs tree (target path) encoding content r ↔ '\x00' ∉ encoding.toList ∧ (target path).hasNul = false ∧
      (tree.Writable (target path) → ∃ codec, codecs.find? encoding = some codec ∧ codec.Keeps content)) ∧
    (∀ e, Encoding.ofName? encoding = some e →
      ((∃ codec, codecs.find? encoding = some codec ∧ codec.Keeps content) ↔ e.Has content)) ∧
    (r.result = .ok () → ∃ bytes, tree.write (target path) bytes = .ok r.tree) ∧
    (¬ Clean codecs tree (target path) encoding content r →
      Breaks r ∧ (('\x00' ∈ encoding.toList ∨ (target path).hasNul = true) ∧ r.tree = tree ∨
        tree.write (target path) [] = .ok r.tree) ∨
      r.result = .ok () ∧ Encoding.ofName? encoding = none ∧ ∃ codec bytes, codecs.find? encoding = some codec ∧
        codec.encode content = .ok bytes ∧ codec.decode bytes ≠ .ok content ∧
        tree.write (target path) bytes = .ok r.tree) := by
  have h := writing codecs tree path (target path) encoding content
  unfold toFiles
  simp only
  generalize writeText codecs tree path (target path) encoding content = w at h
  cases h with
  | misnamed fault hfault hzero =>
    have hbreaks : Breaks ⟨.error fault.toFailure, tree, []⟩ := by
      rcases hfault with rfl | rfl <;> exact ⟨_, _, rfl⟩
    refine ⟨⟨fun hclean => absurd hclean hbreaks.not_clean, ?_⟩, fun _ => kept_iff_has, fun hok => ?_,
      fun _ => .inl ⟨hbreaks, .inl ⟨hzero, rfl⟩⟩⟩
    · rintro ⟨hencoding, hnul, -⟩
      rcases hzero with hzero | hzero
      · exact absurd hzero hencoding
      · rw [hnul] at hzero
        cases hzero
    · cases hok
  | refused fault hencoding hnul hopen =>
    have hclean : Clean codecs tree (target path) encoding content
        ⟨.error (WriteFault.refused path fault (target path)).toFailure, tree, []⟩ := .inr ⟨⟨_, rfl⟩, rfl⟩
    refine ⟨⟨fun _ => ⟨hencoding, hnul, fun h => absurd h hopen⟩, fun _ => hclean⟩, fun _ => kept_iff_has,
      fun hok => ?_, fun hunclean => absurd hclean hunclean⟩
    cases hok
  | emptied fault tree' hencoding hopen hfault hlost htree =>
    obtain ⟨kind, message, hfailure⟩ := hfault
    have hbreaks : Breaks ⟨.error fault.toFailure, tree', []⟩ := ⟨kind, message, congrArg Except.error hfailure⟩
    refine ⟨⟨fun hclean => absurd hclean hbreaks.not_clean, ?_⟩, fun _ => kept_iff_has, fun hok => ?_,
      fun _ => .inl ⟨hbreaks, .inr htree⟩⟩
    · rintro ⟨-, -, hkept⟩
      obtain ⟨codec, hcodec, hkeeps⟩ := hkept hopen
      exact absurd hkeeps (hlost codec hcodec)
    · cases hok
  | written codec bytes tree' hencoding hopen hcodec hbytes htree =>
    have hclean := clean_ok_iff content [writtenNote (target path) content] hcodec htree
    refine ⟨?_, fun _ => kept_iff_has, fun _ => ⟨bytes, htree⟩, fun hunclean => ?_⟩
    · rw [hclean, Codecs.kept_iff_of_encode hcodec hbytes]
      exact ⟨fun h => ⟨hencoding, hopen.hasNul, fun _ => h⟩, fun h => h.2.2 hopen⟩
    · rw [hclean] at hunclean
      exact .inr ⟨rfl, Codecs.ofName?_of_misread hcodec hbytes hunclean, codec, bytes, hcodec, hbytes, hunclean, htree⟩

/-- A folder with one file. -/
def oneFile : FileTree :=
  ⟨[(["f"], .file [0x6f, 0x6c, 0x64])], []⟩

/-- A text with a character beyond ASCII, written in an encoding that has it. -/
theorem latin_write_clean :
    oneFile.Writable (.ofString "f") ∧ Clean Codecs.plain oneFile (.ofString "f") "latin-1" "é"
      ((toFiles Codecs.plain FilePath.ofString "latin-1").write oneFile "f" "é") := by
  have hplace : oneFile.place (.ofString "f") = .ok ["f"] := by decide +kernel
  have hname : Encoding.ofName? "latin-1" = some .latin1 := by decide +kernel
  have hbytes : Encoding.latin1.encode "é" = .ok [0xe9] := by decide +kernel
  exact ⟨⟨["f"], hplace, by decide⟩, (write_clean_iff Codecs.plain FilePath.ofString "latin-1" oneFile "f" "é").1.2
    ⟨by decide, FileTree.hasNul_of_place hplace,
      fun _ => (kept_iff_has hname).2 ((Codec.encode_ok_iff _ _).1 ⟨_, hbytes⟩)⟩⟩

/-- The same text in an encoding that does not have it: the write fails in another way, and the file is empty. -/
theorem ascii_write_not_clean :
    ¬ Clean Codecs.plain oneFile (.ofString "f") "ascii" "é"
      ((toFiles Codecs.plain FilePath.ofString "ascii").write oneFile "f" "é") ∧
    ((toFiles Codecs.plain FilePath.ofString "ascii").write oneFile "f" "é").tree.read (.ofString "f") = .ok [] := by
  have hfailure : ((toFiles Codecs.plain FilePath.ofString "ascii").write oneFile "f" "é").result =
      .error (.broken "write fault" (WriteFault.unencodable ⟨"ascii", 0, 'é', 1, 128⟩).message) := by decide +kernel
  exact ⟨Breaks.not_clean ⟨_, _, hfailure⟩, by decide +kernel⟩

end Writer

end Amend
