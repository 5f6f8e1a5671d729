/-
The totals of a summary. No count of a file is zero or less, so an outcome is among the totals exactly
if a file counts it or an event without a file has it.
-/
import Amend.Proofs.Summary.Entry

namespace Amend

namespace Counts

/-- Every outcome that has a count was counted at least once. -/
def Positive (counts : Counts) : Prop :=
  ∀ row ∈ counts, 0 < row.2

variable {counts : Counts} {o : Outcome}

theorem positive_nil : Positive [] := by
  intro row h
  cases h

theorem Positive.of_nonneg (h : counts.Positive) (o : Outcome) : 0 ≤ counts.of o := by
  unfold of
  rcases hg : counts.get? o with _ | n
  · exact Int.le_refl 0
  · exact Int.le_of_lt (h _ (Table.mem_of_get? hg))

theorem Positive.of_pos_iff (h : counts.Positive) : 0 < counts.of o ↔ ∃ n, (o, n) ∈ counts := by
  unfold of
  constructor
  · intro hpos
    rcases hg : counts.get? o with _ | n
    · rw [hg] at hpos; cases hpos
    · exact ⟨n, Table.mem_of_get? hg⟩
  · rintro ⟨n, hn⟩
    obtain ⟨m, hm⟩ := (Table.mem_keys_iff counts o).1 (List.mem_map.2 ⟨_, hn, rfl⟩)
    rw [hm]
    exact h _ (Table.mem_of_get? hm)

theorem Positive.add (h : counts.Positive) (o : Outcome) {n : Int} (hn : 0 < n) : (counts.add o n).Positive := by
  intro row hrow
  rcases Table.mem_put hrow with rfl | hrow
  · have := h.of_nonneg o
    show 0 < counts.of o + n
    omega
  · exact h row hrow

theorem Positive.retract (h : counts.Positive) (o : Outcome) (n : Int) : (counts.retract o n).Positive := by
  intro row hrow
  unfold Counts.retract at hrow
  simp only at hrow
  split at hrow
  · rename_i hleft
    rcases Table.mem_put hrow with rfl | hrow
    · exact hleft
    · exact h row hrow
  · exact h row (List.mem_filter.1 hrow).1

/-- Counting positive rows: an outcome is counted that was before, or that one of the rows has. -/
theorem foldl_add_pos_iff (rows : List (Outcome × Int)) (hrows : ∀ row ∈ rows, 0 < row.2) :
    ∀ {counts : Counts}, counts.Positive →
      (0 < (rows.foldl (fun c row => Counts.add c row.1 row.2) counts).of o ↔
        0 < counts.of o ∨ ∃ n, (o, n) ∈ rows) := by
  induction rows with
  | nil => intro counts _; simp
  | cons row rest ih =>
    intro counts h
    obtain ⟨o', n⟩ := row
    have hn : 0 < n := hrows (o', n) (List.mem_cons_self ..)
    have hnonneg := h.of_nonneg o
    rw [List.foldl_cons, ih (fun r hr => hrows r (List.mem_cons_of_mem _ hr)) (h.add o' hn), of_add]
    by_cases ho : o' = o
    · subst ho
      rw [if_pos rfl]
      constructor
      · exact fun _ => .inr ⟨n, List.mem_cons_self ..⟩
      · exact fun _ => .inl (by omega)
    · simp [ho, Ne.symm ho]

end Counts

namespace FileTally

/-- What holds of no counts, and of counts to which an outcome is added or fixes are taken from, holds of
the counts of a file. -/
theorem counts_induction {P : Counts → Prop} (hnil : P []) (hadd : ∀ counts o, P counts → P (counts.add o 1))
    (hretract : ∀ counts n, P counts → P (counts.retract .fixed n)) (path : String) (events : List Event) :
    P (ofEvents path events).summary.counts := by
  have hempty : P (empty path).summary.counts := hnil
  refine List.foldlRecOn (motive := fun tally => P tally.summary.counts) events add hempty fun tally h event _ => ?_
  rw [add_counts]
  refine hadd _ _ ?_
  have hsettled := settled tally event
  generalize tally.settle event = t at hsettled ⊢
  cases hsettled with
  | fixed | kept => exact h
  | undone | spoiled => exact hretract _ _ h

/-- However events revise each other, no count of a file becomes zero or less. -/
theorem positive_ofEvents (path : String) (events : List Event) : (ofEvents path events).summary.counts.Positive :=
  counts_induction Counts.positive_nil (fun _ o h => h.add o Int.one_pos) (fun _ n h => h.retract .fixed n) path events

end FileTally

namespace Summary

/-- The entry of a file has positive counts, and counts an error exactly if one of its events is one. -/
theorem counts_entryOf {path : String} {mine : List Event} {interrupted written : Bool} {diff : Option String}
    {file : FileSummary} (h : entryOf path mine interrupted written diff = some file) :
    file.counts.Positive ∧ (0 < file.counts.of .error ↔ ∃ e ∈ mine, e.outcome = .error) := by
  have hpositive := FileTally.positive_ofEvents path mine
  have herrors : (FileTally.ofEvents path mine).summary.counts.of .error = Selection.tallyOf .error mine := by
    unfold FileTally.ofEvents
    rw [FileTally.foldl_of (by decide)]
    simp [FileTally.empty, FileSummary.empty, Counts.of]
  have hmem : 0 < (Selection.tallyOf .error mine : Int) ↔ ∃ e ∈ mine, e.outcome = .error := by
    rw [Int.natCast_pos]
    unfold Selection.tallyOf
    rw [List.countP_pos_iff]
    simp
  rw [(of_entryOf h).1]
  unfold closed
  cases interrupted with
  | false => exact ⟨hpositive, by rw [← hmem, ← herrors]; rfl⟩
  | true =>
    -- an interruption takes back fixes only
    refine ⟨hpositive.retract _ _, ?_⟩
    have hkeep := Counts.of_retract_ne (FileTally.ofEvents path mine).summary.counts
      (show Outcome.fixed ≠ .error by decide) (FileTally.ofEvents path mine).live.total
    rw [← hmem, ← herrors, ← hkeep]
    rfl

theorem hasErrors_iff {summary : Summary} (h : ∀ row ∈ summary.files, row.2.counts.Positive) :
    summary.hasErrors = true ↔
      (∃ row ∈ summary.files, 0 < row.2.counts.of .error) ∨ ∃ e ∈ summary.unresolved, e.outcome = .error := by
  have hcounted : (∃ n, (Outcome.error, n) ∈ summary.files.values.flatMap (·.counts)) ↔
      ∃ row ∈ summary.files, 0 < row.2.counts.of .error := by
    simp only [Table.values, List.mem_flatMap, List.mem_map]
    constructor
    · rintro ⟨n, file, ⟨row, hrow, rfl⟩, hn⟩
      exact ⟨row, hrow, (h row hrow).of_pos_iff.2 ⟨n, hn⟩⟩
    · rintro ⟨row, hrow, hpos⟩
      obtain ⟨n, hn⟩ := (h row hrow).of_pos_iff.1 hpos
      exact ⟨n, row.2, ⟨row, hrow, rfl⟩, hn⟩
  have hloose : (∃ n, (Outcome.error, n) ∈ summary.unresolved.map fun e => (e.outcome, (1 : Int))) ↔
      ∃ e ∈ summary.unresolved, e.outcome = .error := by
    simp only [List.mem_map, Prod.mk.injEq]
    constructor
    · rintro ⟨n, e, he, ho, -⟩
      exact ⟨e, he, ho⟩
    · rintro ⟨e, he, ho⟩
      exact ⟨1, e, he, ho, rfl⟩
  have hrows : ∀ row ∈ summary.files.values.flatMap (·.counts) ++
      summary.unresolved.map fun e => (e.outcome, (1 : Int)), 0 < row.2 := by
    intro row hrow
    rcases List.mem_append.1 hrow with hrow | hrow
    · obtain ⟨file, hfile, hrow⟩ := List.mem_flatMap.1 hrow
      obtain ⟨entry, hentry, rfl⟩ := List.mem_map.1 hfile
      exact h entry hentry row hrow
    · obtain ⟨e, -, rfl⟩ := List.mem_map.1 hrow
      exact Int.one_pos
  unfold hasErrors totals
  simp only [gt_iff_lt, decide_eq_true_eq]
  rw [Counts.foldl_add_pos_iff _ hrows Counts.positive_nil, ← hcounted, ← hloose]
  simp [Counts.of, List.mem_append, exists_or]

end Summary

end Amend
