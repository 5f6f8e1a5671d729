/-
Edits of one start. Of the edits given for a start, the first one that stays clear of the edits applied
above it is applied, and no other. An edit that runs into one of those is left out, and it does not count
for the edits given after it: a later edit of its start is applied if that one stays clear.
-/
import Amend.Proofs.Merge.Priority

namespace Amend.Merge

/-! ## Edits that stay clear -/

/-- Does an edit end at or before the start of each taken edit that starts above it? -/
def Free (edits : List Edit) (accepted : List Nat) (e : Edit) : Prop :=
  ∀ i ∈ accepted, ∀ taken, edits[i]? = some taken → e.span.start < taken.span.start →
    e.span.stop ≤ taken.span.start

/-- An edit of the same start that is no longer stays as clear. -/
theorem Free.of_length_le {edits : List Edit} {accepted : List Nat} {a b : Edit} (h : Free edits accepted b)
    (hstart : a.span.start = b.span.start) (hlength : a.span.length ≤ b.span.length) : Free edits accepted a := by
  intro i hi taken htaken habove
  have hstop := h i hi taken htaken (by omega)
  unfold Span.stop at hstop ⊢
  omega

/-- Is every edit left out that shares its start with one given before it? -/
def LaterSkipped (edits : List Edit) (v : Verdict) : Prop :=
  ∀ i j, i < j → ∀ a b : Edit, edits[i]? = some a → edits[j]? = some b → a.span.start = b.span.start →
    j ∉ v.accepted ∧ j ∈ v.skipped

theorem mem_skipped_iff {spans : List Span} {size i : Nat} (hi : i < spans.length) :
    i ∈ (select spans size).skipped ↔ i ∉ (select spans size).accepted := by
  have hperm := select_perm spans size
  have hapart := (List.nodup_append.1 (hperm.nodup_iff.2 List.nodup_range)).2.2
  constructor
  · intro hskipped haccepted
    exact hapart i haccepted i hskipped rfl
  · intro hnot
    exact (List.mem_append.1 (hperm.mem_iff.2 (List.mem_range.2 hi))).resolve_left hnot

/-! ## Edits that are taken -/

section Taken

variable {edits : List Edit} {size : Nat} (hfits : ∀ e ∈ edits, e.span.fits size = true)
include hfits

/-- An edit is taken exactly if it is clear of every taken edit that comes before it. -/
theorem edit_taken_iff {i : Nat} {e : Edit} (hi : edits[i]? = some e) :
    i ∈ (select (edits.map (·.span)) size).accepted ↔
      ∀ j ∈ (select (edits.map (·.span)) size).accepted, ∀ taken, edits[j]? = some taken →
        Outranks (j, taken.span) (i, e.span) → Clear taken.span e.span := by
  rw [select_takes_iff (List.forall_mem_map.2 hfits) (by rw [List.getElem?_map, hi]; rfl)]
  constructor
  · intro h j hj taken htaken
    exact h j hj taken.span (by rw [List.getElem?_map, htaken]; rfl)
  · intro h j hj span hspan
    rw [List.getElem?_map, Option.map_eq_some_iff] at hspan
    obtain ⟨taken, htaken, rfl⟩ := hspan
    exact h j hj taken htaken

/-- A taken edit stays clear. -/
theorem free_of_taken {i : Nat} {e : Edit} (hi : edits[i]? = some e)
    (hin : i ∈ (select (edits.map (·.span)) size).accepted) :
    Free edits (select (edits.map (·.span)) size).accepted e :=
  fun j hj taken htaken habove => ((edit_taken_iff hfits hi).1 hin j hj taken htaken (.inl habove)).below

/-- Where an edit stays clear, one of its start is taken, itself or one given before it. -/
theorem exists_taken_of_free {i : Nat} {e : Edit} (hi : edits[i]? = some e)
    (hfree : Free edits (select (edits.map (·.span)) size).accepted e) :
    ∃ j ≤ i, j ∈ (select (edits.map (·.span)) size).accepted ∧
      ∃ taken, edits[j]? = some taken ∧ taken.span.start = e.span.start := by
  by_cases hin : i ∈ (select (edits.map (·.span)) size).accepted
  · exact ⟨i, Nat.le_refl i, hin, e, hi, rfl⟩
  · rw [edit_taken_iff hfits hi] at hin
    push Not at hin
    obtain ⟨j, hj, taken, htaken, hrank, hblocked⟩ := hin
    rcases hrank with habove | ⟨hstart, hless⟩
    · -- an edit that stays clear is not blocked from above
      have hstop := hfree j hj taken htaken habove
      exact absurd ⟨hstop, Int.ne_of_lt habove⟩ hblocked
    · exact ⟨j, Nat.le_of_lt hless, hj, taken, htaken, hstart⟩

/-- An edit is taken exactly if it is the first of its start that stays clear. -/
theorem taken_iff_first_free {i : Nat} {e : Edit} (hi : edits[i]? = some e) :
    i ∈ (select (edits.map (·.span)) size).accepted ↔
      Free edits (select (edits.map (·.span)) size).accepted e ∧
      ∀ earlier ∈ edits.take i, earlier.span.start = e.span.start →
        ¬ Free edits (select (edits.map (·.span)) size).accepted earlier := by
  constructor
  · intro hin
    refine ⟨free_of_taken hfits hi hin, fun earlier hearlier hstart hfree => ?_⟩
    obtain ⟨j, hless, rfl⟩ := List.mem_take_iff_getElem.1 hearlier
    obtain ⟨k, hk, hkin, taken, htaken, hsame⟩ := exists_taken_of_free hfits (List.getElem?_eq_getElem _) hfree
    have hrank : Outranks (k, taken.span) (i, e.span) := .inr ⟨hsame.trans hstart, by omega⟩
    exact ((edit_taken_iff hfits hi).1 hin k hkin taken htaken hrank).apart (hsame.trans hstart).symm
  · rintro ⟨hfree, hfirst⟩
    obtain ⟨j, hj, hjin, taken, htaken, hsame⟩ := exists_taken_of_free hfits hi hfree
    rcases Nat.lt_or_eq_of_le hj with hless | rfl
    · have hearlier : taken ∈ edits.take i := List.mem_of_getElem? ((List.getElem?_take_of_lt hless).trans htaken)
      exact absurd (free_of_taken hfits htaken hjin) (hfirst taken hearlier hsame)
    · exact hjin

/-- All later edits of a start are left out, exactly if the first one stays clear wherever any of them does. -/
theorem laterSkipped_iff : LaterSkipped edits (select (edits.map (·.span)) size) ↔
    ∀ e ∈ edits, Free edits (select (edits.map (·.span)) size).accepted e →
      ∀ first, edits.find? (·.span.start = e.span.start) = some first →
        Free edits (select (edits.map (·.span)) size).accepted first := by
  constructor
  · intro h e he hfree first hfirst
    obtain ⟨hstart, i, hi, rfl, hnone⟩ := List.find?_eq_some_iff_getElem.1 hfirst
    simp only [decide_eq_true_eq, Bool.not_eq_true', decide_eq_false_iff_not] at hstart hnone
    obtain ⟨j, hj⟩ := List.mem_iff_getElem?.1 he
    obtain ⟨k, -, hkin, taken, htaken, hsame⟩ := exists_taken_of_free hfits hj hfree
    obtain ⟨hk, rfl⟩ := List.getElem?_eq_some_iff.1 htaken
    rcases Nat.lt_trichotomy k i with hlow | rfl | hhigh
    · exact absurd hsame (hnone k hlow)
    · exact free_of_taken hfits htaken hkin
    · exact absurd hkin (h i k hhigh _ _ (List.getElem?_eq_getElem hi) htaken (hstart.trans hsame.symm)).1
  · intro h i j hless a b ha hb hstart
    have hj : j < (edits.map (·.span)).length := by
      rw [List.length_map]
      exact (List.getElem?_eq_some_iff.1 hb).1
    have hnot : j ∉ (select (edits.map (·.span)) size).accepted := by
      intro hin
      obtain ⟨hfree, hearlier⟩ := (taken_iff_first_free hfits hb).1 hin
      -- the first edit of this start comes no later than `a`, and stays clear as well
      have hamem : a ∈ edits.take j := List.mem_of_getElem? ((List.getElem?_take_of_lt hless).trans ha)
      rcases hfind : (edits.take j).find? (·.span.start = b.span.start) with _ | first
      · exact absurd hstart (by simpa using List.find?_eq_none.1 hfind a hamem)
      · have hfirst : edits.find? (·.span.start = b.span.start) = some first := by
          rw [← List.take_append_drop j edits, List.find?_append, hfind]
          rfl
        exact hearlier first (List.mem_of_find?_eq_some hfind) (by simpa using List.find?_some hfind)
          (h b (List.mem_of_getElem? hb) hfree first hfirst)
    exact ⟨hnot, (mem_skipped_iff hj).2 hnot⟩

/-- All later edits of a start are left out if none of them is shorter than one given before it. -/
theorem laterSkipped_of_lengths
    (hlengths : edits.Pairwise fun a b => a.span.start = b.span.start → a.span.length ≤ b.span.length) :
    LaterSkipped edits (select (edits.map (·.span)) size) := by
  refine (laterSkipped_iff hfits).2 fun e he hfree first hfirst => ?_
  obtain ⟨hstart, before, after, rfl, hnone⟩ := List.find?_eq_some_iff_append.1 hfirst
  simp only [decide_eq_true_eq, Bool.not_eq_true', decide_eq_false_iff_not] at hstart hnone
  have hlater := (List.pairwise_cons.1 (List.pairwise_append.1 hlengths).2.1).1
  rcases List.mem_append.1 he with he | he
  · exact absurd rfl (hnone e he)
  · rcases List.mem_cons.1 he with rfl | he
    · exact hfree
    · exact hfree.of_length_le hstart (hlater e he hstart)

end Taken

/-! ## Merges -/

/-- Which edit of a start is applied: the first one that ends at or before the start of every edit applied
above it. So all edits that share their start with an earlier one are left out exactly if the first edit of a
start stays clear wherever any edit of that start does, as it is if no later one is shorter. -/
theorem first_free_applies (edits : List Edit) (size : Nat) (hfits : ∀ e ∈ edits, e.span.fits size = true) :
    let v := select (edits.map (·.span)) size
    (∀ i e, edits[i]? = some e → (i ∈ v.accepted ↔ Free edits v.accepted e ∧
      ∀ earlier ∈ edits.take i, earlier.span.start = e.span.start → ¬ Free edits v.accepted earlier)) ∧
    (LaterSkipped edits v ↔ ∀ e ∈ edits, Free edits v.accepted e →
      ∀ first, edits.find? (·.span.start = e.span.start) = some first → Free edits v.accepted first) ∧
    (edits.Pairwise (fun a b => a.span.start = b.span.start → a.span.length ≤ b.span.length) →
      LaterSkipped edits v) ∧
    ∀ text : String, text.length = size → ∃ m, apply text edits = .ok m ∧ m.applied = pick edits v.accepted ∧
      m.skipped = pick edits ((List.range edits.length).filter (· ∈ v.skipped)) := by
  intro v
  refine ⟨fun i e hi => taken_iff_first_free hfits hi, laterSkipped_iff hfits, laterSkipped_of_lengths hfits, ?_⟩
  rintro text rfl
  exact apply_of_fits hfits

/-- Two edits of one start, the longer one first, and an edit within the longer one. -/
def outrun : List Edit :=
  [.replace 0 4 "x", .replace 0 1 "y", .replace 2 1 "z"]

/-- The longer edit runs into the edit above it, so the shorter one is the first to stay clear. -/
theorem outrun_first_free_applies : (∀ e ∈ outrun, e.span.fits 6 = true) ∧
    ¬ Free outrun (select (outrun.map (·.span)) 6).accepted (.replace 0 4 "x") ∧
    ∃ m, apply "abcdef" outrun = .ok m ∧ m.applied = [.replace 2 1 "z", .replace 0 1 "y"] := by
  have hfits : ∀ e ∈ outrun, e.span.fits 6 = true := by decide
  have hselect : select (outrun.map (·.span)) 6 = ⟨[2, 1], [0]⟩ := by cbv
  obtain ⟨hfirst, -, -, hmerge⟩ := first_free_applies outrun 6 hfits
  obtain ⟨m, hm, happlied, -⟩ := hmerge "abcdef" (by decide)
  have hnot := ((hfirst 1 (.replace 0 1 "y") rfl).1 (by rw [hselect]; decide)).2 (.replace 0 4 "x") (by decide) rfl
  rw [hselect] at happlied
  exact ⟨hfits, hnot, m, hm, happlied⟩

/-- The second edit of a start is applied after the first one was left out. -/
theorem second_of_start_applies : (∀ e ∈ outrun, e.span.fits "abcdef".length = true) ∧
    apply "abcdef" outrun =
      .ok ⟨"ybzdef", [.replace 2 1 "z", .replace 0 1 "y"], [.replace 0 4 "x"]⟩ ∧
    ¬ LaterSkipped outrun (select (outrun.map (·.span)) "abcdef".length) := by
  have hselect : select (outrun.map (·.span)) "abcdef".length = ⟨[2, 1], [0]⟩ := by cbv
  refine ⟨by decide, by cbv, fun h => ?_⟩
  rw [hselect] at h
  have hskipped := (h 0 1 (by decide) (.replace 0 4 "x") (.replace 0 1 "y") rfl rfl rfl).1
  exact hskipped (by decide)

end Amend.Merge
