/-
The summary of a run, file by file. The entry of a file depends on the events of that file alone,
on whether it was written or interrupted, and on its diff; so the order in which the events of
different files arrive, and that in which the results do, leave no trace.
-/
import Amend.Proofs.Summary.Tally
import Mathlib.Data.List.Induction

namespace Amend

/-! ## What a tally leaves alone -/

namespace FileTally

theorem settle_summary (tally : FileTally) (event : Event) :
    ∃ counts, (tally.settle event).summary = { tally.summary with counts := counts } := by
  have hsettled := settled tally event
  generalize tally.settle event = t at hsettled ⊢
  cases hsettled with
  | fixed | undone | spoiled | kept => exact ⟨_, rfl⟩

/-- Events touch neither the path nor the mark of a written file nor the diff. -/
theorem foldl_add_marks (events : List Event) : ∀ tally : FileTally,
    (events.foldl add tally).summary.path = tally.summary.path ∧
    (events.foldl add tally).summary.written = tally.summary.written ∧
    (events.foldl add tally).summary.diff = tally.summary.diff := by
  induction events with
  | nil => intro tally; exact ⟨rfl, rfl, rfl⟩
  | cons e rest ih =>
    intro tally
    obtain ⟨counts, hs⟩ := settle_summary tally e
    obtain ⟨h1, h2, h3⟩ := ih (tally.add e)
    have hadd : (tally.add e).summary.path = tally.summary.path ∧
        (tally.add e).summary.written = tally.summary.written ∧ (tally.add e).summary.diff = tally.summary.diff := by
      simp [add, hs, FileSummary.count]
    exact ⟨h1.trans hadd.1, h2.trans hadd.2.1, h3.trans hadd.2.2⟩

/-- The tally of a file's events. -/
def ofEvents (path : String) (mine : List Event) : FileTally :=
  mine.foldl add (empty path)

end FileTally

/-! ## Files of a run -/

namespace RunTally

variable (tally : RunTally)

theorem get?_onFile (path other : String) (f : FileTally → FileTally) :
    (tally.onFile path f).files.get? other =
      if path = other then some (f ((tally.files.get? path).getD (FileTally.empty path)))
      else tally.files.get? other := by
  unfold onFile
  rw [Table.get?_alter]

theorem get?_interrupt (path other : String) :
    (tally.interrupt path).files.get? other =
      if path = other then (tally.files.get? other).map FileTally.interrupt else tally.files.get? other := by
  unfold interrupt
  split
  · rename_i hh
    rw [get?_onFile]
    obtain ⟨t, ht⟩ := Option.isSome_iff_exists.1 hh
    split
    · rename_i he; subst he; rw [ht]; rfl
    · rfl
  · rename_i hh
    split
    · rename_i he; subst he
      rw [Bool.not_eq_true, Table.has, Option.isSome_eq_false_iff, Option.isNone_iff_eq_none] at hh
      rw [hh]; rfl
    · rfl

theorem add_of_none {e : Event} (h : e.path = none) :
    tally.add e = { tally with unresolved := tally.unresolved ++ [e] } := by
  simp only [add, h]

theorem add_of_some {e : Event} {path : String} (h : e.path = some path) :
    tally.add e = tally.onFile path (·.add e) := by
  simp only [add, h]

theorem ofEvents_append (events : List Event) (e : Event) : ofEvents (events ++ [e]) = (ofEvents events).add e := by
  unfold ofEvents
  rw [List.foldl_append]; rfl

/-- After the events of a run each file has the tally of its own events. -/
theorem get?_ofEvents (events : List Event) (path : String) :
    (ofEvents events).files.get? path =
      if events.filter (·.path = some path) = [] then none
      else some (FileTally.ofEvents path (events.filter (·.path = some path))) := by
  induction events using List.reverseRecOn with
  | nil => rfl
  | append_singleton events e ih =>
    rw [ofEvents_append, List.filter_append]
    by_cases he : e.path = some path
    · have hne : events.filter (·.path = some path) ++ [e] ≠ [] := by simp
      rw [List.filter_cons_of_pos (by simpa using he), List.filter_nil, if_neg hne, add_of_some _ he,
        get?_onFile, if_pos rfl, ih]
      unfold FileTally.ofEvents
      rw [List.foldl_append]
      split
      · rename_i hn; rw [hn]; rfl
      · rfl
    · rw [List.filter_cons_of_neg (by simpa using he), List.filter_nil, List.append_nil, ← ih]
      rcases hp : e.path with _ | p
      · rw [add_of_none _ hp]
      · rw [add_of_some _ hp, get?_onFile, if_neg (by rintro rfl; exact he hp)]

theorem unresolved_ofEvents (events : List Event) :
    (ofEvents events).unresolved = events.filter (·.path = none) := by
  induction events using List.reverseRecOn with
  | nil => rfl
  | append_singleton events e ih =>
    rw [ofEvents_append, List.filter_append, ← ih]
    rcases hp : e.path with _ | p
    · rw [add_of_none _ hp]; simp [hp]
    · rw [add_of_some _ hp]; simp [hp, onFile]

theorem foldl_unresolved {α : Type} {f : RunTally → α → RunTally} (hf : ∀ t a, (f t a).unresolved = t.unresolved)
    (items : List α) : ∀ t : RunTally, (items.foldl f t).unresolved = t.unresolved := by
  induction items with
  | nil => intro t; rfl
  | cons a rest ih => intro t; rw [List.foldl_cons, ih, hf]

theorem get?_interrupts {interrupted : List String} (hn : interrupted.Nodup) (path : String) : ∀ tally : RunTally,
    (interrupted.foldl interrupt tally).files.get? path =
      if path ∈ interrupted then (tally.files.get? path).map FileTally.interrupt else tally.files.get? path := by
  induction interrupted with
  | nil => intro tally; simp
  | cons p rest ih =>
    intro tally
    obtain ⟨hp, hn'⟩ := List.nodup_cons.1 hn
    rw [List.foldl_cons, ih hn', get?_interrupt]
    by_cases he : p = path
    · subst he; simp [hp]
    · simp [he, Ne.symm he]

theorem get?_markWritten {written : List String} (path : String) : ∀ tally : RunTally,
    (written.foldl markWritten tally).files.get? path =
      if path ∈ written then
        let t := (tally.files.get? path).getD (FileTally.empty path)
        some { t with summary := { t.summary with written := true } }
      else tally.files.get? path := by
  induction written with
  | nil => intro tally; simp
  | cons p rest ih =>
    intro tally
    rw [List.foldl_cons, ih]
    unfold markWritten
    rw [get?_onFile]
    by_cases he : p = path
    · subst he; simp
    · simp [he, Ne.symm he]

theorem get?_setDiff {diffs : Table String String} (hn : diffs.keys.Nodup) (path : String) : ∀ tally : RunTally,
    (diffs.foldl (fun t row => t.setDiff row.1 row.2) tally).files.get? path =
      match diffs.get? path with
      | some diff =>
        let t := (tally.files.get? path).getD (FileTally.empty path)
        some { t with summary := { t.summary with diff := diff } }
      | none => tally.files.get? path := by
  induction diffs with
  | nil => intro tally; rfl
  | cons row rest ih =>
    intro tally
    obtain ⟨p, diff⟩ := row
    obtain ⟨hp, hn'⟩ : p ∉ Table.keys rest ∧ (Table.keys rest).Nodup := List.nodup_cons.1 hn
    rw [List.foldl_cons, ih hn']
    unfold setDiff
    simp only [get?_onFile, Table.get?]
    by_cases he : p = path
    · subst he
      rw [(Table.get?_eq_none_iff rest p).2 hp]
      simp
    · simp [he]

end RunTally

/-! ## The entry of a file -/

namespace Summary

/-- The tally of a file once its events are in and an interruption has taken its fixes back. -/
def closed (path : String) (mine : List Event) (interrupted : Bool) : FileTally :=
  let tally := FileTally.ofEvents path mine
  if interrupted then tally.interrupt else tally

theorem closed_marks (path : String) (mine : List Event) (interrupted : Bool) :
    (closed path mine interrupted).summary.written = false ∧ (closed path mine interrupted).summary.diff = "" := by
  obtain ⟨-, hw, hd⟩ := FileTally.foldl_add_marks mine (FileTally.empty path)
  unfold closed
  cases interrupted
  · exact ⟨hw, hd⟩
  · exact ⟨hw, hd⟩

theorem closed_nil (path : String) (interrupted : Bool) : closed path [] interrupted = FileTally.empty path := by
  cases interrupted <;> rfl

/-- The entry of a file: its own events, whether it was interrupted or written, and its diff. -/
def entryOf (path : String) (mine : List Event) (interrupted written : Bool) (diff : Option String) :
    Option FileSummary :=
  if mine = [] ∧ written = false ∧ diff = none then none
  else some { (closed path mine interrupted).summary with written := written, diff := diff.getD "" }

theorem of_entryOf {path : String} {mine : List Event} {interrupted written : Bool} {diff : Option String}
    {file : FileSummary} (h : entryOf path mine interrupted written diff = some file) :
    file.counts = (closed path mine interrupted).summary.counts ∧ file.written = written := by
  unfold entryOf at h
  split at h
  · cases h
  · cases h; exact ⟨rfl, rfl⟩

/-- The entry of a file in a summary is made of what concerns this file. -/
theorem get?_ofEvents {events : List Event} {written interrupted : List String} {diffs : Table String String}
    (hi : interrupted.Nodup) (hd : diffs.keys.Nodup) (cancelled : Bool) (path : String) :
    (ofEvents events written diffs cancelled interrupted).files.get? path =
      entryOf path (events.filter (·.path = some path)) (interrupted.contains path) (written.contains path)
        (diffs.get? path) := by
  unfold ofEvents
  rw [Table.get?_mapValues, RunTally.get?_setDiff hd, RunTally.get?_markWritten, RunTally.get?_interrupts hi,
    RunTally.get?_ofEvents]
  generalize events.filter (·.path = some path) = mine
  have hclosed : (if path ∈ interrupted then
        (if mine = [] then none else some (FileTally.ofEvents path mine)).map FileTally.interrupt
      else if mine = [] then none else some (FileTally.ofEvents path mine)) =
      if mine = [] then none else some (closed path mine (interrupted.contains path)) := by
    unfold closed
    by_cases hp : path ∈ interrupted <;> by_cases hm : mine = [] <;> simp [hp, hm]
  rw [hclosed]
  unfold entryOf
  generalize interrupted.contains path = stopped
  by_cases hm : mine = []
  · subst hm
    rw [closed_nil]
    rcases diffs.get? path with _ | diff <;> by_cases hwr : path ∈ written <;>
      simp [hwr, FileTally.empty, FileSummary.empty]
  · obtain ⟨hw, hdiff⟩ := closed_marks path mine stopped
    generalize closed path mine stopped = t at hw hdiff ⊢
    obtain ⟨⟨_, _, _, _, _⟩, _⟩ := t
    simp only at hw hdiff
    subst hw hdiff
    rcases diffs.get? path with _ | diff <;> by_cases hwr : path ∈ written <;> simp [hwr, hm]

theorem unresolved_ofEvents (events : List Event) (written interrupted : List String) (diffs : Table String String)
    (cancelled : Bool) :
    (ofEvents events written diffs cancelled interrupted).unresolved = events.filter (·.path = none) := by
  have hinterrupt : ∀ (t : RunTally) (p : String), (t.interrupt p).unresolved = t.unresolved := by
    intro t p
    unfold RunTally.interrupt
    split <;> rfl
  have hwritten : ∀ (t : RunTally) (p : String), (t.markWritten p).unresolved = t.unresolved := fun _ _ => rfl
  have hdiff : ∀ (t : RunTally) (row : String × String), (t.setDiff row.1 row.2).unresolved = t.unresolved :=
    fun _ _ => rfl
  unfold ofEvents
  simp only
  rw [RunTally.foldl_unresolved hdiff, RunTally.foldl_unresolved hwritten, RunTally.foldl_unresolved hinterrupt,
    RunTally.unresolved_ofEvents]

/-- A summary that has no other files than those listed is in the order of the list. -/
theorem reorder_files (summary : Summary) (paths : List String) (h : ∀ p ∈ summary.files.keys, p ∈ paths) :
    (summary.reorder paths).files = paths.filterMap fun p => (summary.files.get? p).map (p, ·) := by
  unfold reorder
  have hothers : summary.files.filter (fun row => !paths.contains row.1) = [] := by
    refine List.filter_eq_nil_iff.2 fun row hrow => ?_
    have := h row.1 (List.mem_map.2 ⟨row, hrow, rfl⟩)
    simpa using this
  simp only [hothers, List.append_nil]

end Summary

end Amend
