/-
Merging patches is merging their edits. A patch set cannot be merged exactly if its edits cannot, for the same
first edit that does not fit; otherwise it gives the same text, and its patches are applied and skipped number
by number as their edits are. Findings are told apart by value and patches by number, so a finding is dropped
exactly if no patch of it is applied, even if patches or findings are given twice.
-/
import Amend.Proofs.Merge.Priority

namespace Amend

namespace Merge

/-! ## The first edit that does not fit -/

/-- The first edit of a list that does not fit a text of this size, with its number. -/
structure FirstMisfit (size : Nat) (edits : List Edit) (e : InvalidSpan) : Prop where
  edit : edits[e.index]? = some e.edit
  misfit : e.edit.span.fits size = false
  earlier : ∀ edit ∈ edits.take e.index, edit.span.fits size = true
  size : e.size = size

theorem misfit?_numbered_iff (size : Nat) (edits : List Edit) (e : InvalidSpan) : ∀ from',
    ((numbered from' edits).findSome? fun (i, edit) =>
      if edit.span.fits size then none else some ⟨i, edit, size⟩) = some e ↔
    ∃ k, e.index = from' + k ∧ FirstMisfit size edits { e with index := k } := by
  induction edits with
  | nil =>
    intro from'
    constructor
    · rintro ⟨⟩
    · rintro ⟨k, -, h⟩
      cases h.edit
  | cons first rest ih =>
    intro from'
    rw [numbered, List.findSome?_cons]
    by_cases hfirst : first.span.fits size = true
    · simp only [if_pos hfirst]
      refine (ih (from' + 1)).trans ⟨?_, ?_⟩
      · rintro ⟨k, hk, h⟩
        exact ⟨k + 1, by omega, h.edit, h.misfit, List.forall_mem_cons.2 ⟨hfirst, h.earlier⟩, h.size⟩
      · rintro ⟨k, hk, h⟩
        cases k with
        | zero =>
          have hedit : first = e.edit := Option.some.inj h.edit
          exact absurd (hedit ▸ hfirst) (by rw [h.misfit]; exact Bool.false_ne_true)
        | succ k => exact ⟨k, by omega, h.edit, h.misfit, (List.forall_mem_cons.1 h.earlier).2, h.size⟩
    · simp only [if_neg hfirst]
      constructor
      · rintro ⟨⟩
        exact ⟨0, rfl, rfl, Bool.eq_false_iff.2 hfirst, List.forall_mem_nil _, rfl⟩
      · rintro ⟨k, hk, h⟩
        cases k with
        | zero =>
          obtain ⟨index, edit, own⟩ := e
          obtain rfl : first = edit := Option.some.inj h.edit
          obtain rfl : own = size := h.size
          exact congrArg (fun i => some (InvalidSpan.mk i first own)) hk.symm
        | succ k => exact absurd (h.earlier first (List.mem_cons_self ..)) hfirst

theorem misfit?_eq_some_iff (size : Nat) (edits : List Edit) (e : InvalidSpan) :
    misfit? size edits = some e ↔ FirstMisfit size edits e := by
  refine (misfit?_numbered_iff size edits e 0).trans ⟨?_, fun h => ⟨e.index, by omega, h⟩⟩
  rintro ⟨k, hk, h⟩
  obtain rfl : k = e.index := by omega
  exact h

theorem mergeBy_error_iff {α : Type} (editOf : α → Edit) (text : String) (items : List α) (e : InvalidSpan) :
    mergeBy editOf text items = .error e ↔ FirstMisfit text.length (items.map editOf) e := by
  rw [← misfit?_eq_some_iff]
  simp only [mergeBy]
  split
  · rename_i e' he
    rw [he, Except.error.injEq, Option.some.injEq]
  · rename_i hnone
    simp [hnone]

/-- Merging items is merging their edits: it fails alike, or gives the same text and items with the same edits. -/
theorem mergeBy_map {α : Type} (editOf : α → Edit) (text : String) (items : List α) :
    apply text (items.map editOf) =
      (mergeBy editOf text items).map fun m => ⟨m.text, m.applied.map editOf, m.skipped.map editOf⟩ := by
  unfold apply mergeBy
  simp only [List.map_id]
  split
  · rfl
  · simp only [Except.map, map_pick]

theorem mem_map_pick {α β : Type} (f : α → β) {items : List α} {indices : List Nat} {b : β} :
    b ∈ (pick items indices).map f ↔ ∃ i ∈ indices, (items[i]?).map f = some b := by
  rw [map_pick, mem_pick]
  simp only [List.getElem?_map]

end Merge

/-! ## Findings that lose edits -/

namespace PatchResult

/-- Was a patch of the first finding left out before all patches of the other one that were? -/
def LostBefore (r : PatchResult) (d d' : Diagnostic) : Prop :=
  r.skipped.findIdx (·.diagnostic = d) < r.skipped.findIdx (·.diagnostic = d')

theorem pairwise_skippedDiagnostics (r : PatchResult) : r.skippedDiagnostics.Pairwise r.LostBefore := by
  have horder := pairwise_firstOccurrences (fun patch : Patch => some patch.diagnostic) r.skipped
  rw [List.filterMap_eq_map'] at horder
  simp only [Option.some.injEq] at horder
  exact horder

theorem pairwise_droppedDiagnostics (r : PatchResult) : r.droppedDiagnostics.Pairwise r.LostBefore :=
  r.pairwise_skippedDiagnostics.filter _

end PatchResult

namespace PatchSet

/-! ## Patches -/

theorem apply_error_iff (set : PatchSet) (document : Document) (e : InvalidSpan) :
    set.apply document = .error e ↔ Merge.FirstMisfit document.size set.edits e := by
  refine Iff.trans ?_ (Merge.mergeBy_error_iff (·.edit) document.text set.patches e)
  unfold apply
  cases Merge.mergeBy (·.edit) document.text set.patches with
  | error e' => simp [Except.map]
  | ok m => simp [Except.map]

/-- What a merge of patches makes of each of them, told by the numbers of those that are taken and of those that
are left out: of the edits alone it makes the same text, and the findings that lost edits are listed by the first
of their patches that was left out. -/
structure Traced (set : PatchSet) (document : Document) (v : Merge.Verdict) (r : PatchResult) (m : Merged Edit) :
    Prop where
  path : r.path = document.path
  before : r.before = document.text
  after : r.after = m.text
  applied : r.applied.map (·.edit) = m.applied
  skipped : r.skipped.map (·.edit) = m.skipped
  split : (v.accepted ++ v.skipped).Perm (List.range set.patches.length)
  taken : r.applied = Merge.pick set.patches v.accepted
  left : r.skipped = Merge.pick set.patches ((List.range set.patches.length).filter (· ∈ v.skipped))
  dropped : ∀ d ∈ set.patches.map (·.diagnostic), d ∈ r.droppedDiagnostics ↔
    ∀ i ∈ v.accepted, (set.patches[i]?).map (·.diagnostic) ≠ some d
  lost : ∀ d ∈ set.patches.map (·.diagnostic), d ∈ r.skippedDiagnostics ↔
    ∃ i ∈ v.skipped, (set.patches[i]?).map (·.diagnostic) = some d
  nodup : r.skippedDiagnostics.Nodup ∧ r.droppedDiagnostics.Nodup
  order : r.skippedDiagnostics.Pairwise r.LostBefore ∧ r.droppedDiagnostics.Pairwise r.LostBefore

theorem traced_of_fits {set : PatchSet} {document : Document}
    (hfits : ∀ edit ∈ set.edits, edit.span.fits document.size = true) :
    ∃ v r m, set.apply document = .ok r ∧ Merge.apply document.text set.edits = .ok m ∧ Traced set document v r m := by
  have hall : ∀ patch ∈ set.patches, patch.edit.span.fits document.text.length = true := List.forall_mem_map.1 hfits
  have hmerge := Merge.mergeBy_of_fits hall
  have hedits := Merge.mergeBy_map (·.edit) document.text set.patches
  have hsplit := Merge.select_perm ((set.patches.map (·.edit)).map (·.span)) document.text.length
  rw [List.length_map, List.length_map] at hsplit
  simp only at hmerge
  generalize Merge.select ((set.patches.map (·.edit)).map (·.span)) document.text.length = v at hmerge hsplit
  have hrange : ∀ i, i ∈ (List.range set.patches.length).filter (· ∈ v.skipped) ↔ i ∈ v.skipped := by
    intro i
    rw [List.mem_filter, decide_eq_true_eq]
    exact ⟨And.right, fun hi => ⟨hsplit.subset (List.mem_append_right _ hi), hi⟩⟩
  rw [hmerge] at hedits
  have happly : set.apply document = _ := congrArg (Except.map fun m : Merged Patch =>
    (⟨document.path, document.text, m.text, m.applied, m.skipped⟩ : PatchResult)) hmerge
  have hperm := (apply_ok happly).2
  refine ⟨v, _, _, happly, hedits, rfl, rfl, rfl, rfl, rfl, hsplit, rfl, rfl, fun d hd => ?_, fun d _ => ?_,
    ⟨nodup_firstOccurrences _, PatchResult.nodup_droppedDiagnostics _⟩,
    ⟨PatchResult.pairwise_skippedDiagnostics _, PatchResult.pairwise_droppedDiagnostics _⟩⟩
  · rw [PatchResult.mem_droppedDiagnostics_iff]
    -- a finding without an applied patch has one that was left out
    have hlost := (hperm.map (·.diagnostic)).mem_iff.2 hd
    rw [List.map_append, List.mem_append] at hlost
    rw [and_iff_right_of_imp hlost.resolve_left, Merge.mem_map_pick]
    push Not
    rfl
  · rw [PatchResult.skippedDiagnostics, mem_firstOccurrences, Merge.mem_map_pick]
    simp only [hrange]

/-- Merging patches agrees with merging their edits. It fails exactly if some edit does not fit the document, and
then both report the first such edit; otherwise the texts are the same, the patches are applied and skipped number
by number as their edits are, and the findings that lost some or all of their edits are told by these numbers. -/
theorem patches_merge_as_edits (set : PatchSet) (document : Document) :
    (∀ e, set.apply document = .error e ↔ Merge.apply document.text set.edits = .error e) ∧
    (∀ e, set.apply document = .error e ↔ Merge.FirstMisfit document.size set.edits e) ∧
    ((∃ e, set.apply document = .error e) ↔ ∃ edit ∈ set.edits, edit.span.fits document.size = false) ∧
    ((∀ edit ∈ set.edits, edit.span.fits document.size = true) → ∃ v r m,
      set.apply document = .ok r ∧ Merge.apply document.text set.edits = .ok m ∧ Traced set document v r m) := by
  have hedits : ∀ e, Merge.apply document.text set.edits = .error e ↔ Merge.FirstMisfit document.size set.edits e := by
    intro e
    have herror := Merge.mergeBy_error_iff id document.text set.edits e
    rwa [List.map_id] at herror
  refine ⟨fun e => (set.apply_error_iff document e).trans (hedits e).symm, set.apply_error_iff document, ?_,
    traced_of_fits⟩
  constructor
  · rintro ⟨e, he⟩
    have hfirst := (set.apply_error_iff document e).1 he
    exact ⟨e.edit, List.mem_of_getElem? hfirst.edit, hfirst.misfit⟩
  · rintro ⟨edit, hedit, hmisfit⟩
    rcases hr : set.apply document with e | r
    · exact ⟨e, rfl⟩
    · obtain ⟨patch, hpatch, rfl⟩ := List.mem_map.1 hedit
      exact absurd ((set.apply_ok_iff document).1 ⟨r, hr⟩ patch hpatch) (by rw [hmisfit]; exact Bool.false_ne_true)

/-- The patches of a finding, of another one that starts there as well, and of the first one again, one of them
given before. -/
def repeated : PatchSet :=
  ((PatchSet.mk "a.py" []).add ⟨"E1", some "a.py", 0, 1, ""⟩ [.replace 0 1 "x"]
    |>.add ⟨"E2", some "a.py", 0, 2, ""⟩ [.replace 0 2 "y"]
    |>.add ⟨"E1", some "a.py", 0, 1, ""⟩ [.insert 3 "z", .replace 0 1 "x"])

theorem apply_repeated : repeated.apply ⟨"a.py", "abcd"⟩ = .ok ⟨"a.py", "abcd", "xbczd",
    [⟨⟨"E1", some "a.py", 0, 1, ""⟩, .insert 3 "z"⟩, ⟨⟨"E1", some "a.py", 0, 1, ""⟩, .replace 0 1 "x"⟩],
    [⟨⟨"E2", some "a.py", 0, 2, ""⟩, .replace 0 2 "y"⟩, ⟨⟨"E1", some "a.py", 0, 1, ""⟩, .replace 0 1 "x"⟩]⟩ := by
  cbv

/-- The first finding lost the patch given twice and has another one applied, so only the second is dropped. -/
theorem repeated_merge_as_edits : (∀ edit ∈ repeated.edits, edit.span.fits "abcd".length = true) ∧
    ∃ r m, repeated.apply ⟨"a.py", "abcd"⟩ = .ok r ∧ Merge.apply "abcd" repeated.edits = .ok m ∧ r.after = m.text ∧
      r.skipped.map (·.edit) = m.skipped ∧
      r.skippedDiagnostics = [⟨"E2", some "a.py", 0, 2, ""⟩, ⟨"E1", some "a.py", 0, 1, ""⟩] ∧
      r.droppedDiagnostics = [⟨"E2", some "a.py", 0, 2, ""⟩] := by
  have hfits : ∀ edit ∈ repeated.edits, edit.span.fits "abcd".length = true := by decide
  obtain ⟨v, r, m, hr, hm, htraced⟩ := (patches_merge_as_edits repeated ⟨"a.py", "abcd"⟩).2.2.2 hfits
  obtain rfl := Except.ok.inj (apply_repeated.symm.trans hr)
  exact ⟨hfits, _, m, hr, hm, htraced.after, htraced.skipped, by decide, by decide⟩

end PatchSet

end Amend
