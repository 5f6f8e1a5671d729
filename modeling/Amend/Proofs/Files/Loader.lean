/-
What loading leaves in a loader: the document that was handed out is kept under its name, and
nothing else of the loader changes.
-/
import Amend.Files.Loader

namespace Amend

open Codec (Bytes)

/-- A document that cannot be loaded is no reason to stop. -/
@[simp] theorem LoadFault.isCancelled_toFailure (fault : LoadFault) : fault.toFailure.isCancelled = false := by
  cases fault <;> rfl

namespace Loader

variable (loader : Loader) (tree : FileTree) (path : String)

theorem fetch_path {document : Document} (h : loader.fetch tree path = .ok document) : document.path = path := by
  unfold fetch at h
  split at h
  · cases h
  · split at h
    · cases h
    · split at h
      · cases h
      · split at h
        · cases h; rfl
        · cases h
        · cases h
        · cases h

/-- A document is fetched from the bytes of its file as the codec reads them. -/
theorem fetch_ok_iff {codec : Codec} {bytes : Bytes} (hnul : '\x00' ∉ loader.encoding.toList)
    (hname : loader.codecs.find? loader.encoding = some codec)
    (hread : tree.read (loader.resolve path) = .ok bytes) (text : String) :
    loader.fetch tree path = .ok ⟨path, text⟩ ↔ codec.decode bytes = .ok text := by
  have hcontains : loader.encoding.toList.contains '\x00' = false := by simpa using hnul
  unfold fetch
  rw [hcontains, hread, hname]
  simp only [Bool.false_eq_true, if_false]
  rcases codec.decode bytes with (fault | _ | fault) | found <;> simp

theorem kept?_preload (document : Document) (other : String) :
    (loader.preload document).kept? other = if document.path = other then some document else loader.kept? other := by
  unfold kept? preload
  rw [Table.get?_put]

/-- The courses of a load: the document was kept before, or it is fetched and kept, or it cannot be
had. -/
theorem load_cases :
    (∃ document, loader.kept? path = some document ∧ loader.load tree path = (.ok document, loader)) ∨
    (∃ document, loader.kept? path = none ∧ loader.fetch tree path = .ok document ∧
      loader.load tree path = (.ok document, loader.preload document)) ∨
    (∃ fault, loader.kept? path = none ∧ loader.fetch tree path = .error fault ∧
      loader.load tree path = (.error fault, loader)) := by
  unfold load
  rcases hk : loader.kept? path with _ | document
  · rcases hf : loader.fetch tree path with fault | document
    · exact .inr (.inr ⟨fault, rfl, rfl, rfl⟩)
    · refine .inr (.inl ⟨document, rfl, rfl, ?_⟩)
      simp only [keep, loader.fetch_path tree path hf, hk]
  · exact .inl ⟨document, rfl, rfl⟩

/-- Loaders that look for files in the same places and read them in the same way. -/
structure Alike (loader loader' : Loader) : Prop where
  root : loader.root = loader'.root
  encoding : loader.encoding = loader'.encoding
  codecs : loader.codecs = loader'.codecs

theorem Alike.refl : loader.Alike loader :=
  ⟨rfl, rfl, rfl⟩

theorem Alike.trans {a b c : Loader} (h : a.Alike b) (h' : b.Alike c) : a.Alike c :=
  ⟨h.root.trans h'.root, h.encoding.trans h'.encoding, h.codecs.trans h'.codecs⟩

/-- Loaders that are alike fetch the same. -/
theorem Alike.fetch {loader loader' : Loader} (h : loader.Alike loader') :
    loader.fetch tree path = loader'.fetch tree path := by
  unfold Loader.fetch resolve
  rw [h.root, h.encoding, h.codecs]

/-- Loading a document changes neither how files are found and read nor what other names stand for. -/
theorem load_frame : (loader.load tree path).2.Alike loader ∧
    ∀ other, other ≠ path → (loader.load tree path).2.kept? other = loader.kept? other := by
  rcases loader.load_cases tree path with ⟨document, -, h⟩ | ⟨document, -, hf, h⟩ | ⟨fault, -, -, h⟩
  · rw [h]; exact ⟨.refl _, fun _ _ => rfl⟩
  · rw [h]
    refine ⟨⟨rfl, rfl, rfl⟩, fun other ho => ?_⟩
    rw [kept?_preload, loader.fetch_path tree path hf, if_neg (Ne.symm ho)]
  · rw [h]; exact ⟨.refl _, fun _ _ => rfl⟩

/-- The document that a load hands out is the one that is kept from then on. -/
theorem load_ok_iff (document : Document) :
    (loader.load tree path).1 = .ok document ↔ (loader.load tree path).2.kept? path = some document := by
  rcases loader.load_cases tree path with ⟨d, hk, h⟩ | ⟨d, -, hf, h⟩ | ⟨fault, hk, -, h⟩
  · rw [h]; simp [hk]
  · rw [h, kept?_preload, loader.fetch_path tree path hf]; simp
  · rw [h]; simp [hk]

theorem load_path {document : Document} (h : (loader.load tree path).1 = .ok document) : document.path = path :=
  (loader.load tree path).2.named path document ((loader.load_ok_iff tree path document).1 h)

/-- A loader keeps all the documents that another one keeps. -/
def Extends (loader earlier : Loader) : Prop :=
  ∀ path document, earlier.kept? path = some document → loader.kept? path = some document

theorem extends_refl : loader.Extends loader :=
  fun _ _ h => h

theorem Extends.trans {a b c : Loader} (h : c.Extends b) (h' : b.Extends a) : c.Extends a :=
  fun path document hk => h path document (h' path document hk)

/-- A document that is kept stays kept, whatever is loaded. -/
theorem load_extends : (loader.load tree path).2.Extends loader := by
  rcases loader.load_cases tree path with ⟨document, -, h⟩ | ⟨document, hnone, hf, h⟩ | ⟨fault, -, -, h⟩
  · rw [h]; exact loader.extends_refl
  · rw [h]
    intro other found hk
    have hne : path ≠ other := by
      rintro rfl
      rw [hnone] at hk
      cases hk
    rw [kept?_preload, loader.fetch_path tree path hf, if_neg hne]
    exact hk
  · rw [h]; exact loader.extends_refl

/-- What a load gives depends on what is kept of the name and on what is fetched. -/
theorem load_congr {loader loader' : Loader} {tree tree' : FileTree} {path : String}
    (hk : loader.kept? path = loader'.kept? path) (hf : loader.fetch tree path = loader'.fetch tree' path) :
    (loader.load tree path).1 = (loader'.load tree' path).1 := by
  rcases loader.load_cases tree path with ⟨d, h1, h⟩ | ⟨d, h1, h2, h⟩ | ⟨fault, h1, h2, h⟩ <;>
    rcases loader'.load_cases tree' path with ⟨d', h1', h'⟩ | ⟨d', h1', h2', h'⟩ | ⟨fault', h1', h2', h'⟩ <;>
    simp_all

/-- What a load gives does not depend on what was loaded before from the same files. -/
theorem load_load (other : String) :
    ((loader.load tree path).2.load tree other).1 = (loader.load tree other).1 := by
  obtain ⟨halike, hframe⟩ := loader.load_frame tree path
  have hfetch := halike.fetch tree other
  by_cases ho : other = path
  · subst ho
    rcases loader.load_cases tree other with ⟨document, hk, h⟩ | ⟨document, -, hf, h⟩ | ⟨fault, -, -, h⟩
    · rw [h, h]
    · have hkept := (loader.load_ok_iff tree other document).1 (by rw [h])
      rw [h] at hkept ⊢
      rcases (loader.preload document).load_cases tree other with ⟨d, hd, h'⟩ | ⟨d, hd, -⟩ | ⟨fault, hd, -⟩
      · rw [hkept] at hd
        cases hd
        rw [h']
      · rw [hkept] at hd; cases hd
      · rw [hkept] at hd; cases hd
    · rw [h, h]
  · exact load_congr (hframe other ho) hfetch

end Loader

end Amend
