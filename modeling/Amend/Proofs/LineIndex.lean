/-
Rows start one after the other and within the text, so that a place that has an offset has one within
the text, and a later place has no smaller one. Each offset of the text is held by exactly one row, and
counting columns from that row's start leads back to it. Rows start where the text does, where it ends, and
after each break, which the two characters around an offset tell.
-/
import Amend.LineIndex
import Mathlib.Data.List.GetD

namespace Amend

/-! ## Line breaks -/

theorem mem_breakEnds {n : Nat} (p : Nat) (cs : List Char) : n ∈ breakEnds p cs → p < n ∧ n ≤ p + cs.length := by
  fun_induction breakEnds p cs with
  | case1 => simp
  | case2 p rest ih =>
    intro h
    simp only [List.length_cons]
    rcases List.mem_cons.1 h with rfl | h
    · omega
    · have := ih h
      omega
  | case3 p c rest _ hc ih =>
    intro h
    simp only [List.length_cons]
    rcases List.mem_cons.1 h with rfl | h
    · omega
    · have := ih h
      omega
  | case4 p c rest _ hc ih =>
    intro h
    have := ih h
    simp only [List.length_cons]
    omega

theorem pairwise_breakEnds (p : Nat) (cs : List Char) : (breakEnds p cs).Pairwise (· < ·) := by
  fun_induction breakEnds p cs with
  | case1 => exact List.Pairwise.nil
  | case2 p rest ih => exact List.pairwise_cons.2 ⟨fun n hn => (mem_breakEnds _ _ hn).1, ih⟩
  | case3 p c rest _ hc ih => exact List.pairwise_cons.2 ⟨fun n hn => (mem_breakEnds _ _ hn).1, ih⟩
  | case4 p c rest _ hc ih => exact ih

namespace LineIndex

/-! ## Starts of rows -/

/-- The rows of an index start within its text, each one after the one before. -/
structure Ordered (index : LineIndex) : Prop where
  within : ∀ n ∈ index.starts, n ≤ index.size
  increasing : index.starts.Pairwise (· < ·)

theorem ordered_ofChars (cs : List Char) : (ofChars cs).Ordered := by
  have hwithin : ∀ n ∈ 0 :: breakEnds 0 cs, n ≤ cs.length := by
    intro n hn
    rcases List.mem_cons.1 hn with rfl | hn
    · exact Nat.zero_le _
    · have := mem_breakEnds 0 cs hn
      omega
  have hincreasing : (0 :: breakEnds 0 cs).Pairwise (· < ·) :=
    List.pairwise_cons.2 ⟨fun n hn => (mem_breakEnds 0 cs hn).1, pairwise_breakEnds 0 cs⟩
  unfold ofChars
  simp only
  generalize 0 :: breakEnds 0 cs = starts at hwithin hincreasing
  split
  · exact ⟨hwithin, hincreasing⟩
  · rename_i hlast
    refine ⟨fun n hn => ?_, List.pairwise_append.2 ⟨hincreasing, List.pairwise_singleton .., ?_⟩⟩
    · rcases List.mem_append.1 hn with hn | hn
      · exact hwithin n hn
      · exact Nat.le_of_eq (List.mem_singleton.1 hn)
    · -- no row but the last could start at the end of the text, and the last one does not
      intro n hn size hsize
      rw [List.mem_singleton.1 hsize]
      refine Nat.lt_of_le_of_ne (hwithin n hn) fun heq => hlast ?_
      obtain ⟨before, later, rfl⟩ := List.append_of_mem hn
      rcases later with _ | ⟨next, later⟩
      · rw [List.getLast?_append, List.getLast?_singleton, heq]
        rfl
      · have hless : n < next := (List.pairwise_cons.1 (List.pairwise_append.1 hincreasing).2.1).1 next
          (List.mem_cons_self ..)
        have := hwithin next (by simp)
        omega

/-! ## Offsets -/

/-- Where a row ends: the next one starts there, or the text ends. -/
def rowEnd (index : LineIndex) (row : Nat) : Nat :=
  index.starts.getD row index.size

theorem offset_eq_ok_iff {index : LineIndex} {row column : Int} {n : Nat} :
    index.offset row column = .ok n ↔ 1 ≤ row ∧ row ≤ index.rowCount ∧ 1 ≤ column ∧
      n = index.starts.getD (row.toNat - 1) 0 + (column.toNat - 1) ∧ n ≤ index.rowEnd row.toNat := by
  unfold offset rowEnd
  by_cases hrow : (row < 1 || row > index.rowCount) = true
  · rw [if_pos hrow]
    simp only [Bool.or_eq_true, decide_eq_true_eq] at hrow
    simp only [reduceCtorEq, false_iff]
    omega
  · rw [if_neg hrow]
    simp only [Bool.or_eq_true, decide_eq_true_eq] at hrow
    by_cases hcolumn : column < 1
    · rw [if_pos hcolumn]
      simp only [reduceCtorEq, false_iff]
      omega
    · rw [if_neg hcolumn]
      simp only
      split <;> simp only [reduceCtorEq, false_iff, Except.ok.injEq] <;> omega

variable {index : LineIndex}

theorem Ordered.rowEnd_le (h : index.Ordered) (row : Nat) : index.rowEnd row ≤ index.size := by
  unfold rowEnd
  rw [List.getD_eq_getElem?_getD]
  rcases hr : index.starts[row]? with _ | n
  · exact Nat.le_refl _
  · exact h.within n (List.mem_of_getElem? hr)

/-- An offset lies within the text. -/
theorem Ordered.offset_le (h : index.Ordered) {row column : Int} {n : Nat} (hn : index.offset row column = .ok n) :
    n ≤ index.size :=
  Nat.le_trans (offset_eq_ok_iff.1 hn).2.2.2.2 (h.rowEnd_le _)

/-- A row ends where a later one starts, or before. -/
theorem Ordered.rowEnd_le_start (h : index.Ordered) {row later : Nat} (hless : row ≤ later)
    (hlater : later < index.rowCount) : index.rowEnd row ≤ index.starts.getD later 0 := by
  have hrow : row < index.starts.length := by
    unfold rowCount at hlater
    omega
  unfold rowEnd
  rw [List.getD_eq_getElem _ _ hrow, List.getD_eq_getElem _ _ hlater]
  rcases Nat.lt_or_eq_of_le hless with hlt | rfl
  · exact Nat.le_of_lt (List.pairwise_iff_getElem.1 h.increasing _ _ hrow hlater hlt)
  · exact Nat.le_refl _

/-- A later place has no smaller offset. -/
theorem Ordered.offset_mono (h : index.Ordered) {row column row' column' : Int} {n n' : Nat}
    (hn : index.offset row column = .ok n) (hn' : index.offset row' column' = .ok n')
    (hle : row < row' ∨ row = row' ∧ column ≤ column') : n ≤ n' := by
  obtain ⟨h1, h2, h3, hstart, hend⟩ := offset_eq_ok_iff.1 hn
  obtain ⟨h1', h2', h3', hstart', hend'⟩ := offset_eq_ok_iff.1 hn'
  rcases hle with hlt | ⟨rfl, hcolumn⟩
  · have hrows := h.rowEnd_le_start (show row.toNat ≤ row'.toNat - 1 by omega) (by omega)
    omega
  · omega

/-! ## Rows of offsets -/

/-- Where a row starts. -/
def rowStart (index : LineIndex) (row : Nat) : Nat :=
  index.starts.getD (row - 1) 0

/-- Does a row hold an offset? It starts there or before, and it is the last row or ends later. -/
structure Holds (index : LineIndex) (row offset : Nat) : Prop where
  first : 1 ≤ row
  last : row ≤ index.rowCount
  starts : index.rowStart row ≤ offset
  ends : row = index.rowCount ∨ offset < index.rowEnd row

/-- Of rows the first of which starts at an offset or before, one is the last to do so. -/
theorem exists_last_start {offset : Nat} (size : Nat) (rest : List Nat) : ∀ first ≤ offset,
    ∃ r < (first :: rest).length, (first :: rest).getD r 0 ≤ offset ∧
      (r + 1 = (first :: rest).length ∨ offset < (first :: rest).getD (r + 1) size) := by
  induction rest with
  | nil =>
    intro first hfirst
    exact ⟨0, Nat.zero_lt_one, hfirst, .inl rfl⟩
  | cons next rest ih =>
    intro first hfirst
    by_cases hnext : next ≤ offset
    · obtain ⟨r, hr, hstart, hlater⟩ := ih next hnext
      refine ⟨r + 1, Nat.succ_lt_succ hr, ?_, ?_⟩
      · rwa [List.getD_cons_succ]
      · rw [List.getD_cons_succ, List.length_cons]
        omega
    · refine ⟨0, Nat.succ_pos _, hfirst, .inr ?_⟩
      show offset < next
      omega

/-- The first row starts at the beginning of the text. -/
theorem starts_ofChars (cs : List Char) : ∃ rest, (ofChars cs).starts = 0 :: rest := by
  unfold ofChars
  simp only
  split
  · exact ⟨_, rfl⟩
  · exact ⟨_, List.cons_append⟩

theorem exists_holds (cs : List Char) (offset : Nat) : ∃ row, (ofChars cs).Holds row offset := by
  obtain ⟨rest, hstarts⟩ := starts_ofChars cs
  obtain ⟨r, hr, hstart, hlater⟩ := exists_last_start (ofChars cs).size rest 0 (Nat.zero_le offset)
  rw [← hstarts] at hr hstart hlater
  exact ⟨r + 1, Nat.succ_pos r, hr, hstart, hlater⟩

/-- No two rows hold one offset: the later one starts where the earlier one ends, or after. -/
theorem Ordered.holds_unique (h : index.Ordered) {row row' offset : Nat} (hrow : index.Holds row offset)
    (hrow' : index.Holds row' offset) : row = row' := by
  have hnot : ∀ {r r' : Nat}, index.Holds r offset → index.Holds r' offset → ¬ r < r' := by
    intro r r' hr hr' hless
    have hfirst := hr'.first
    have hlast := hr'.last
    have hstart := hr'.starts
    have hgap : index.rowEnd r ≤ index.rowStart r' := h.rowEnd_le_start (by omega) (by omega)
    rcases hr.ends with hr | hr <;> omega
  have hle := hnot hrow hrow'
  have hge := hnot hrow' hrow
  omega

theorem rowEnd_rowCount (index : LineIndex) : index.rowEnd index.rowCount = index.size :=
  List.getD_eq_default _ _ (Nat.le_refl _)

/-- The column of an offset in the row that holds it leads back to the offset. -/
theorem Holds.offset_eq {row offset : Nat} (h : index.Holds row offset) (hsize : offset ≤ index.size) :
    index.offset row (offset - index.rowStart row + 1 : Nat) = .ok offset := by
  have hfirst := h.first
  have hlast := h.last
  have hstart := h.starts
  have hend : offset ≤ index.rowEnd row := by
    rcases h.ends with rfl | hless
    · rwa [rowEnd_rowCount]
    · exact Nat.le_of_lt hless
  refine offset_eq_ok_iff.2 ⟨by omega, by omega, by omega, ?_, by rwa [Int.toNat_natCast]⟩
  show offset = index.rowStart row + _
  omega

/-- Offsets as a map of places. A place has an offset exactly if its row exists, its column is counted from
one and it does not go beyond the start of the next row, or beyond the text in the last one; the offset is
then within the text. Later places have no smaller offsets. And each offset of the text is held by exactly
one row, whose column for it has that offset. -/
theorem offset_monotone_invertible (text : String) :
    let index := ofText text
    (∀ row column : Int, (∃ n, index.offset row column = .ok n) ↔ 1 ≤ row ∧ row ≤ index.rowCount ∧ 1 ≤ column ∧
      index.rowStart row.toNat + (column - 1) ≤ index.rowEnd row.toNat) ∧
    (∀ (row column : Int) (n : Nat), index.offset row column = .ok n →
      n = index.rowStart row.toNat + (column - 1) ∧ n ≤ text.length) ∧
    (∀ (row column row' column' : Int) (n n' : Nat), index.offset row column = .ok n →
      index.offset row' column' = .ok n' → row < row' ∨ row = row' ∧ column ≤ column' → n ≤ n') ∧
    ∀ n ≤ text.length, ∃ row, index.Holds row n ∧ (∀ row', index.Holds row' n → row' = row) ∧
      index.offset row (n - index.rowStart row + 1 : Nat) = .ok n := by
  intro index
  have hordered : index.Ordered := ordered_ofChars text.toList
  have hsize : index.size = text.length := String.length_toList
  refine ⟨fun row column => ?_, fun row column n h => ?_, fun row column row' column' n n' h h' hle => ?_,
    fun n hn => ?_⟩
  · constructor
    · rintro ⟨n, hn⟩
      obtain ⟨hrow, hcount, hcolumn, hstart, hend⟩ := offset_eq_ok_iff.1 hn
      refine ⟨hrow, hcount, hcolumn, ?_⟩
      unfold rowStart
      omega
    · rintro ⟨hrow, hcount, hcolumn, hend⟩
      unfold rowStart at hend
      exact ⟨_, offset_eq_ok_iff.2 ⟨hrow, hcount, hcolumn, rfl, by omega⟩⟩
  · obtain ⟨-, -, hcolumn, hstart, -⟩ := offset_eq_ok_iff.1 h
    refine ⟨?_, hsize ▸ hordered.offset_le h⟩
    unfold rowStart
    omega
  · exact hordered.offset_mono h h' hle
  · obtain ⟨row, hrow⟩ := exists_holds text.toList n
    exact ⟨row, hrow, fun row' hrow' => hordered.holds_unique hrow' hrow, hrow.offset_eq (hsize ▸ hn)⟩

/-- One past a line break and the start of the next row are two places with one offset, and the next row
holds it. -/
theorem break_offset_monotone_invertible :
    let index := ofText "ab\r\nc\n"
    index.starts = [0, 4, 6] ∧ index.offset 1 5 = .ok 4 ∧ index.offset 2 1 = .ok 4 ∧ index.Holds 2 4 ∧
      (∀ row, index.Holds row 4 → row = 2) ∧ ¬ ∃ n, index.offset 1 6 = .ok n := by
  intro index
  have hstarts : index.starts = [0, 4, 6] := by decide
  obtain ⟨hplace, -, -, hback⟩ := offset_monotone_invertible "ab\r\nc\n"
  obtain ⟨row, -, hunique, -⟩ := hback 4 (by decide)
  have hholds : index.Holds 2 4 := ⟨by decide, by decide, by decide, by decide⟩
  refine ⟨hstarts, rfl, rfl, hholds, fun row' hrow' => ?_, fun h => ?_⟩
  · rw [hunique row' hrow', hunique 2 hholds]
  · exact absurd ((hplace 1 6).1 h) (by decide)

/-! ## Breaks -/

/-- Does a break end with the character at an offset? A carriage return before a line feed is the first half
of one. -/
def EndsBreak (cs : List Char) (q : Nat) : Prop :=
  cs[q]? = some '\n' ∨ cs[q]? = some '\r' ∧ cs[q + 1]? ≠ some '\n'

theorem endsBreak_succ {c : Char} {rest : List Char} {q : Nat} :
    EndsBreak (c :: rest) (q + 1) ↔ EndsBreak rest q := by
  unfold EndsBreak
  rw [List.getElem?_cons_succ, List.getElem?_cons_succ]

theorem endsBreak_zero {c : Char} {rest : List Char} :
    EndsBreak (c :: rest) 0 ↔ c = '\n' ∨ c = '\r' ∧ rest.head? ≠ some '\n' := by
  unfold EndsBreak
  rw [List.getElem?_cons_zero, List.getElem?_cons_succ, Option.some.injEq, Option.some.injEq, List.head?_eq_getElem?]

/-- A carriage return at the end of the text is a break of its own. -/
theorem endsBreak_iff {cs : List Char} {q : Nat} : EndsBreak cs q ↔ q < cs.length ∧
    (cs[q]? = some '\n' ∨ cs[q]? = some '\r' ∧ (q + 1 = cs.length ∨ cs[q + 1]? ≠ some '\n')) := by
  have hinside : ∀ {c}, cs[q]? = some c → q < cs.length := fun h => (List.getElem?_eq_some_iff.1 h).1
  constructor
  · rintro (h | ⟨h, hnext⟩)
    · exact ⟨hinside h, .inl h⟩
    · exact ⟨hinside h, .inr ⟨h, .inr hnext⟩⟩
  · rintro ⟨-, h | ⟨h, hend | hnext⟩⟩
    · exact .inl h
    · exact .inr ⟨h, by simp [hend]⟩
    · exact .inr ⟨h, hnext⟩

/-- The scan finds the end of every break, and nothing else. -/
theorem mem_breakEnds_iff (p q : Nat) (cs : List Char) : p + q + 1 ∈ breakEnds p cs ↔ EndsBreak cs q := by
  fun_induction breakEnds p cs generalizing q with
  | case1 p => simp [EndsBreak]
  | case2 p rest ih =>
    -- a break of two characters, and no other one ends with the first of them
    rw [List.mem_cons]
    rcases q with _ | _ | q
    · refine iff_of_false (fun h => ?_) (by simp [endsBreak_zero])
      rcases h with h | h
      · omega
      · have := mem_breakEnds _ _ h
        omega
    · rw [endsBreak_succ, endsBreak_zero]
      exact iff_of_true (.inl rfl) (.inl rfl)
    · rw [endsBreak_succ, endsBreak_succ, ← ih q]
      rw [show p + (q + 1 + 1) + 1 = p + 2 + q + 1 by omega]
      exact or_iff_right (by omega)
  | case3 p c rest hpair hc ih =>
    rw [List.mem_cons]
    rcases q with _ | q
    · rw [endsBreak_zero]
      refine iff_of_true (.inl rfl) ?_
      rcases Bool.or_eq_true .. ▸ hc with hc | hc
      · refine .inr ⟨of_decide_eq_true hc, fun hnext => ?_⟩
        obtain ⟨later, hlater⟩ := List.head?_eq_some_iff.1 hnext
        exact hpair later (of_decide_eq_true hc) hlater
      · exact .inl (of_decide_eq_true hc)
    · rw [endsBreak_succ, ← ih q]
      rw [show p + (q + 1) + 1 = p + 1 + q + 1 by omega]
      exact or_iff_right (by omega)
  | case4 p c rest hpair hc ih =>
    rw [Bool.or_eq_true, decide_eq_true_eq, decide_eq_true_eq] at hc
    rcases q with _ | q
    · refine iff_of_false (fun h => ?_) (fun h => ?_)
      · have := mem_breakEnds _ _ h
        omega
      · rcases endsBreak_zero.1 h with h | ⟨h, -⟩
        · exact hc (.inr h)
        · exact hc (.inl h)
    · rw [endsBreak_succ, ← ih q]
      rw [show p + (q + 1) + 1 = p + 1 + q + 1 by omega]

/-- The starts of rows are the beginning of the text, its end, and the ends of its breaks. -/
theorem mem_starts_iff (cs : List Char) (p : Nat) :
    p ∈ (ofChars cs).starts ↔ p = 0 ∨ p = cs.length ∨ p ∈ breakEnds 0 cs := by
  unfold ofChars
  simp only
  split
  · rename_i hlast
    have hsize : cs.length ∈ 0 :: breakEnds 0 cs := List.mem_of_getLast? hlast
    rw [List.mem_cons]
    constructor
    · rintro (h | h)
      · exact .inl h
      · exact .inr (.inr h)
    · rintro (h | rfl | h)
      · exact .inl h
      · exact List.mem_cons.1 hsize
      · exact .inr h
  · rw [List.mem_append, List.mem_cons, List.mem_singleton, or_assoc, or_comm (a := p ∈ _)]

/-- Where rows start. The starts of rows ascend, and one is at an offset exactly if that is the beginning of
the text, its end, or the offset after a line feed or after a carriage return without one; so no other
character starts a row within the text. -/
theorem starts_at_breaks (text : String) :
    (ofText text).starts.Pairwise (· < ·) ∧
    (∀ p, p ∈ (ofText text).starts ↔ p = 0 ∨ p = text.length ∨ 1 ≤ p ∧ p ≤ text.length ∧
      (text.toList[p - 1]? = some '\n' ∨
        text.toList[p - 1]? = some '\r' ∧ (p = text.length ∨ text.toList[p]? ≠ some '\n'))) ∧
    ∀ p c, 0 < p → p < text.length → text.toList[p - 1]? = some c → c ≠ '\n' → c ≠ '\r' →
      p ∉ (ofText text).starts := by
  have hiff : ∀ p, p ∈ (ofText text).starts ↔ p = 0 ∨ p = text.length ∨ 1 ≤ p ∧ p ≤ text.length ∧
      (text.toList[p - 1]? = some '\n' ∨
        text.toList[p - 1]? = some '\r' ∧ (p = text.length ∨ text.toList[p]? ≠ some '\n')) := by
    intro p
    unfold ofText
    rw [mem_starts_iff, String.length_toList]
    refine or_congr_right (or_congr_right ?_)
    rcases p with _ | q
    · exact iff_of_false (fun h => absurd (mem_breakEnds 0 _ h).1 (Nat.lt_irrefl 0)) (fun h => absurd h.1 (by omega))
    · have hbreak := mem_breakEnds_iff 0 q text.toList
      rw [Nat.zero_add] at hbreak
      rw [hbreak, endsBreak_iff, String.length_toList, Nat.add_sub_cancel]
      exact ⟨fun h => ⟨Nat.succ_pos q, h.1, h.2⟩, fun h => ⟨h.2.1, h.2.2⟩⟩
  refine ⟨(ordered_ofChars text.toList).increasing, hiff, fun p c hfirst hlast hc hfeed hreturn hp => ?_⟩
  rcases (hiff p).1 hp with h | h | ⟨-, -, h | ⟨h, -⟩⟩
  · omega
  · omega
  · rw [hc] at h
    exact hfeed (Option.some.inj h)
  · rw [hc] at h
    exact hreturn (Option.some.inj h)

/-- A line separator starts no row, and a carriage return at the end starts the last one. -/
theorem separator_starts_at_breaks :
    (ofText "a\r\n\u2028b\r").starts = [0, 3, 6] ∧ 4 ∉ (ofText "a\r\n\u2028b\r").starts :=
  ⟨by decide, (starts_at_breaks "a\r\n\u2028b\r").2.2 4 '\u2028' (by decide) (by decide) (by decide) (by decide)
    (by decide)⟩

end LineIndex

end Amend
