/-
What a merged text is, character by character. The applied edits come from the last to the first and apart
from each other. Every character outside of their spans lands where the edits before it have moved it, every
inserted text stands at its place, and these together are the whole merged text, nothing of it twice.
-/
import Amend.Proofs.Merge.Priority

namespace Amend

/-- By how much an edit makes a text longer. -/
def Edit.gain (e : Edit) : Int :=
  e.text.length - e.span.length

namespace Merge

/-! ## Edits from the last to the first -/

/-- By how much edits make a text longer. -/
def gain (edits : List Edit) : Int :=
  (edits.map Edit.gain).sum

@[simp] theorem gain_nil : gain [] = 0 := rfl

@[simp] theorem gain_cons (e : Edit) (rest : List Edit) : gain (e :: rest) = e.gain + gain rest :=
  List.sum_cons

theorem gain_eq_sub (edits : List Edit) :
    gain edits = (edits.map fun e => (e.text.length : Int)).sum - (edits.map (·.span.length)).sum := by
  induction edits with
  | nil => rfl
  | cons e rest ih =>
    rw [gain_cons, ih, List.map_cons, List.sum_cons, List.map_cons, List.sum_cons, Edit.gain]
    omega

/-- Edits of the text before `cursor`, the last one first, each one below those before it. -/
structure Descending (cursor : Nat) (edits : List Edit) : Prop where
  within : ∀ e ∈ edits, 0 ≤ e.span.start ∧ 0 ≤ e.span.length ∧ e.span.start + e.span.length ≤ cursor
  apart : edits.Pairwise fun a b => b.span.start + b.span.length ≤ a.span.start ∧ b.span.start < a.span.start

/-- Does an offset lie outside of the spans of all edits? -/
def Outside (edits : List Edit) (p : Nat) : Prop :=
  ∀ e ∈ edits, p < e.span.start ∨ e.span.stop ≤ p

instance (edits : List Edit) (p : Nat) : Decidable (Outside edits p) :=
  inferInstanceAs (Decidable (∀ e ∈ edits, _))

/-- Where the character at an offset comes to stand: the edits that end at it or before it move it. -/
def landing (edits : List Edit) (p : Nat) : Int :=
  p + gain (edits.filter (·.span.stop ≤ p))

/-- Where the text of an edit comes to stand: the edits that start before it move it. -/
def place (edits : List Edit) (e : Edit) : Int :=
  e.span.start + gain (edits.filter (·.span.start < e.span.start))

section Descents

variable {cursor : Nat} {e : Edit} {rest : List Edit}

theorem Descending.head (h : Descending cursor (e :: rest)) :
    0 ≤ e.span.start ∧ 0 ≤ e.span.length ∧ e.span.start + e.span.length ≤ cursor :=
  h.within e (List.mem_cons_self ..)

theorem Descending.below (h : Descending cursor (e :: rest)) :
    ∀ b ∈ rest, b.span.start + b.span.length ≤ e.span.start ∧ b.span.start < e.span.start :=
  (List.pairwise_cons.1 h.apart).1

theorem Descending.tail (h : Descending cursor (e :: rest)) : Descending e.span.start.toNat rest := by
  obtain ⟨hstart, -, -⟩ := h.head
  refine ⟨fun b hb => ?_, (List.pairwise_cons.1 h.apart).2⟩
  obtain ⟨hb0, hb1, -⟩ := h.within b (List.mem_cons_of_mem _ hb)
  have := (h.below b hb).1
  exact ⟨hb0, hb1, by omega⟩

theorem Outside.tail {p : Nat} (h : Outside (e :: rest) p) : Outside rest p :=
  fun b hb => h b (List.mem_cons_of_mem _ hb)

theorem landing_of_above {edits : List Edit} {p : Nat} (h : ∀ e ∈ edits, e.span.stop ≤ p) :
    landing edits p = p + gain edits := by
  unfold landing
  rw [List.filter_eq_self.2 fun e he => decide_eq_true (h e he)]

theorem landing_cons_above (h : Descending cursor (e :: rest)) {p : Nat} (hp : e.span.stop ≤ p) :
    landing (e :: rest) p = p + (e.gain + gain rest) := by
  rw [← gain_cons]
  refine landing_of_above (List.forall_mem_cons.2 ⟨hp, fun b hb => ?_⟩)
  have hhead := h.head
  have hbelow := h.below b hb
  unfold Span.stop at hp ⊢
  omega

theorem landing_cons_below (h : Descending cursor (e :: rest)) {p : Nat} (hp : p < e.span.start) :
    landing (e :: rest) p = landing rest p := by
  have hnot : ¬ e.span.stop ≤ p := by
    have hhead := h.head
    unfold Span.stop
    omega
  unfold landing
  rw [List.filter_cons_of_neg (by simpa using hnot)]

theorem place_cons_self (h : Descending cursor (e :: rest)) :
    place (e :: rest) e = e.span.start + gain rest := by
  unfold place
  rw [List.filter_cons_of_neg (by simp),
    List.filter_eq_self.2 fun b hb => decide_eq_true (h.below b hb).2]

theorem place_cons_of_mem (h : Descending cursor (e :: rest)) {a : Edit} (ha : a ∈ rest) :
    place (e :: rest) a = place rest a := by
  have hbelow := (h.below a ha).2
  unfold place
  rw [List.filter_cons_of_neg (by simpa using Int.le_of_lt hbelow)]

end Descents

/-! ## Where characters and texts land -/

/-- What stands before the cursor lands before the end of the text that the cursor ends. -/
theorem landing_lt (edits : List Edit) : ∀ {cursor p : Nat}, Descending cursor edits → p < cursor → Outside edits p →
    landing edits p < cursor + gain edits := by
  induction edits with
  | nil =>
    intro cursor p _ hp _
    simp only [landing, List.filter_nil, gain_nil]
    omega
  | cons e rest ih =>
    intro cursor p h hp hout
    obtain ⟨hstart, hlength, hstop⟩ := h.head
    rw [gain_cons]
    rcases hout e (List.mem_cons_self ..) with hbefore | hafter
    · rw [landing_cons_below h hbefore]
      have := ih h.tail (by omega) hout.tail
      unfold Edit.gain
      omega
    · rw [landing_cons_above h hafter]
      omega

theorem place_le (edits : List Edit) : ∀ {cursor : Nat}, Descending cursor edits → ∀ a ∈ edits,
    place edits a + a.text.length ≤ cursor + gain edits := by
  induction edits with
  | nil => intro _ _ a ha; cases ha
  | cons e rest ih =>
    intro cursor h a ha
    obtain ⟨hstart, hlength, hstop⟩ := h.head
    rw [gain_cons]
    unfold Edit.gain
    rcases List.mem_cons.1 ha with rfl | ha
    · rw [place_cons_self h]
      omega
    · rw [place_cons_of_mem h ha]
      have := ih h.tail a ha
      omega

/-- Characters outside of the spans stay in order. -/
theorem landing_strictMono (edits : List Edit) : ∀ {cursor p p' : Nat}, Descending cursor edits → p < p' →
    Outside edits p → Outside edits p' → landing edits p < landing edits p' := by
  induction edits with
  | nil =>
    intro cursor p p' _ hp _ _
    simp only [landing, List.filter_nil, gain_nil]
    omega
  | cons e rest ih =>
    intro cursor p p' h hp hout hout'
    obtain ⟨hstart, hlength, hstop⟩ := h.head
    rcases hout' e (List.mem_cons_self ..) with hbefore' | hafter'
    · rw [landing_cons_below h hbefore', landing_cons_below h (by omega)]
      exact ih h.tail hp hout.tail hout'.tail
    · rw [landing_cons_above h hafter']
      rcases hout e (List.mem_cons_self ..) with hbefore | hafter
      · rw [landing_cons_below h hbefore]
        have := landing_lt rest h.tail (by omega) hout.tail
        unfold Edit.gain
        unfold Span.stop at hafter'
        omega
      · rw [landing_cons_above h hafter]
        omega

/-- A character before a span lands before the text of its edit. -/
theorem landing_lt_place (edits : List Edit) : ∀ {cursor p : Nat}, Descending cursor edits → Outside edits p →
    ∀ a ∈ edits, p < a.span.start → landing edits p < place edits a := by
  induction edits with
  | nil => intro _ _ _ _ a ha; cases ha
  | cons e rest ih =>
    intro cursor p h hout a ha hp
    obtain ⟨hstart, -, -⟩ := h.head
    rcases List.mem_cons.1 ha with rfl | ha
    · rw [landing_cons_below h hp, place_cons_self h]
      have := landing_lt rest h.tail (by omega) hout.tail
      omega
    · have hbelow := (h.below a ha).2
      rw [landing_cons_below h (by omega), place_cons_of_mem h ha]
      exact ih h.tail hout.tail a ha hp

/-- A character after a span lands after the text of its edit. -/
theorem place_le_landing (edits : List Edit) : ∀ {cursor p : Nat}, Descending cursor edits → Outside edits p →
    ∀ a ∈ edits, a.span.stop ≤ p → place edits a + a.text.length ≤ landing edits p := by
  induction edits with
  | nil => intro _ _ _ _ a ha; cases ha
  | cons e rest ih =>
    intro cursor p h hout a ha hp
    obtain ⟨hstart, hlength, -⟩ := h.head
    rcases List.mem_cons.1 ha with rfl | ha
    · rw [landing_cons_above h hp, place_cons_self h]
      unfold Edit.gain
      unfold Span.stop at hp
      omega
    · rw [place_cons_of_mem h ha]
      rcases hout e (List.mem_cons_self ..) with hbefore | hafter
      · rw [landing_cons_below h hbefore]
        exact ih h.tail hout.tail a ha hp
      · rw [landing_cons_above h hafter]
        have := place_le rest h.tail a ha
        unfold Edit.gain
        unfold Span.stop at hafter
        omega

/-! ## The spliced text -/

theorem length_slice {cs : List Char} {start stop : Nat} (h : stop ≤ cs.length) :
    (slice cs start stop).length = stop - start := by
  unfold slice
  rw [List.length_drop, List.length_take, Nat.min_eq_left h]

theorem getElem?_slice (cs : List Char) {start stop i : Nat} (h : start + i < stop) :
    (slice cs start stop)[i]? = cs[start + i]? := by
  unfold slice
  rw [List.getElem?_drop, List.getElem?_take_of_lt h]

section Spliced

variable {cs : List Char}

theorem length_splice (edits : List Edit) : ∀ {cursor : Nat}, cursor ≤ cs.length → Descending cursor edits →
    ((splice cs cursor edits).length : Int) = cursor + gain edits := by
  induction edits with
  | nil =>
    intro cursor hc _
    rw [splice, List.length_take, Nat.min_eq_left hc, gain_nil, Int.add_zero]
  | cons e rest ih =>
    intro cursor hc h
    obtain ⟨hstart, hlength, hstop⟩ := h.head
    have hrest := ih (by omega) h.tail
    rw [splice, List.length_append, List.length_append, length_slice hc, gain_cons, String.length_toList]
    unfold Edit.gain Span.stop
    omega

/-- Where the last edit's text starts, and what follows it. -/
theorem splice_cons (e : Edit) (rest : List Edit) {cursor : Nat} (hc : cursor ≤ cs.length)
    (h : Descending cursor (e :: rest)) : ∃ before : List Char,
      splice cs cursor (e :: rest) = before ++ (e.text.toList ++ slice cs e.span.stop.toNat cursor) ∧
      before = splice cs e.span.start.toNat rest ∧ (before.length : Int) = e.span.start + gain rest := by
  obtain ⟨hstart, hlength, hstop⟩ := h.head
  refine ⟨_, by rw [splice, List.append_assoc], rfl, ?_⟩
  rw [length_splice rest (by omega) h.tail, Int.toNat_of_nonneg hstart]

/-- A character outside of the spans is in the spliced text where it lands. -/
theorem getElem?_splice (edits : List Edit) : ∀ {cursor p : Nat}, cursor ≤ cs.length → Descending cursor edits →
    p < cursor → Outside edits p →
    ∃ q : Nat, (q : Int) = landing edits p ∧ (splice cs cursor edits)[q]? = cs[p]? := by
  induction edits with
  | nil =>
    intro cursor p hc _ hp _
    exact ⟨p, by simp [landing], by rw [splice, List.getElem?_take_of_lt hp]⟩
  | cons e rest ih =>
    intro cursor p hc h hp hout
    obtain ⟨hstart, hlength, hstop⟩ := h.head
    obtain ⟨before, hsplice, hbefore, hsize⟩ := splice_cons e rest hc h
    rw [hsplice]
    rcases hout e (List.mem_cons_self ..) with hlow | hhigh
    · obtain ⟨q, hq, hchar⟩ := ih (show e.span.start.toNat ≤ cs.length by omega) h.tail (by omega) hout.tail
      have hlt := landing_lt rest h.tail (by omega) hout.tail
      refine ⟨q, by rw [hq, landing_cons_below h hlow], ?_⟩
      rw [List.getElem?_append_left (by omega), hbefore, hchar]
    · unfold Span.stop at hhigh
      refine ⟨before.length + (e.text.toList.length + (p - e.span.stop.toNat)), ?_, ?_⟩
      · rw [landing_cons_above h hhigh, String.length_toList]
        unfold Edit.gain Span.stop
        omega
      · rw [List.getElem?_append_right (by omega), Nat.add_sub_cancel_left, List.getElem?_append_right (by omega),
          Nat.add_sub_cancel_left, getElem?_slice cs (by unfold Span.stop; omega)]
        congr 1
        unfold Span.stop
        omega

/-- The text of an edit stands at its place. -/
theorem text_prefix_splice (edits : List Edit) : ∀ {cursor : Nat}, cursor ≤ cs.length → Descending cursor edits →
    ∀ a ∈ edits, ∃ q : Nat, (q : Int) = place edits a ∧ a.text.toList <+: (splice cs cursor edits).drop q := by
  induction edits with
  | nil => intro _ _ _ a ha; cases ha
  | cons e rest ih =>
    intro cursor hc h a ha
    obtain ⟨hstart, hlength, hstop⟩ := h.head
    obtain ⟨before, hsplice, hbefore, hsize⟩ := splice_cons e rest hc h
    rw [hsplice]
    rcases List.mem_cons.1 ha with rfl | ha
    · exact ⟨before.length, by rw [hsize, place_cons_self h], by
        rw [List.drop_left]
        exact List.prefix_append ..⟩
    · obtain ⟨q, hq, htext⟩ := ih (show e.span.start.toNat ≤ cs.length by omega) h.tail a ha
      refine ⟨q, by rw [hq, place_cons_of_mem h ha], ?_⟩
      rw [List.drop_append, hbefore]
      exact htext.trans (List.prefix_append ..)

/-- All of the spliced text is accounted for: a character of it stands for one outside of the spans, or it
belongs to the text of an edit. -/
theorem splice_covered (edits : List Edit) : ∀ {cursor q : Nat}, cursor ≤ cs.length → Descending cursor edits →
    q < (splice cs cursor edits).length →
    (∃ p < cursor, Outside edits p ∧ landing edits p = q) ∨
    ∃ a ∈ edits, place edits a ≤ q ∧ q < place edits a + a.text.length := by
  induction edits with
  | nil =>
    intro cursor q hc _ hq
    rw [splice, List.length_take, Nat.min_eq_left hc] at hq
    exact .inl ⟨q, hq, fun e he => absurd he List.not_mem_nil, by simp [landing]⟩
  | cons e rest ih =>
    intro cursor q hc h hq
    obtain ⟨hstart, hlength, hstop⟩ := h.head
    obtain ⟨before, hsplice, hbefore, hsize⟩ := splice_cons e rest hc h
    rw [hsplice, List.length_append, List.length_append, length_slice hc, String.length_toList] at hq
    unfold Span.stop at hq
    by_cases hfirst : q < before.length
    · rcases ih (show e.span.start.toNat ≤ cs.length by omega) h.tail (hbefore ▸ hfirst) with
        ⟨p, hp, hout, hland⟩ | ⟨a, ha, hq⟩
      · refine .inl ⟨p, by omega, List.forall_mem_cons.2 ⟨.inl (by omega), hout⟩, ?_⟩
        rw [landing_cons_below h (by omega), hland]
      · exact .inr ⟨a, List.mem_cons_of_mem _ ha, by rwa [place_cons_of_mem h ha]⟩
    · by_cases hsecond : q < before.length + e.text.length
      · exact .inr ⟨e, List.mem_cons_self .., by rw [place_cons_self h]; omega⟩
      · -- the rest of the text is what stands between the span and the cursor
        have hafter : e.span.stop ≤ (e.span.stop.toNat + (q - before.length - e.text.length) : Nat) := by omega
        refine .inl ⟨e.span.stop.toNat + (q - before.length - e.text.length), ?_, ?_, ?_⟩
        · unfold Span.stop
          omega
        · refine List.forall_mem_cons.2 ⟨.inr hafter, fun b hb => .inr ?_⟩
          have := (h.below b hb).1
          unfold Span.stop at hafter ⊢
          omega
        · rw [landing_cons_above h hafter]
          unfold Edit.gain Span.stop
          omega

end Spliced

/-! ## Merged texts -/

/-- A merged text is the text with the applied edits spliced in. -/
theorem mergeBy_text {α : Type} {editOf : α → Edit} {text : String} {items : List α} {m : Merged α}
    (h : mergeBy editOf text items = .ok m) :
    m.text.toList = splice text.toList text.toList.length (m.applied.map editOf) ∧
    Descending text.toList.length (m.applied.map editOf) := by
  have hfits := (mergeBy_ok_iff editOf text items).1 ⟨m, h⟩
  refine ⟨?_, List.forall_mem_map.2 fun a ha => ?_, ?_⟩
  · rw [mergeBy_of_fits hfits] at h
    cases h
    rw [map_pick, String.toList_ofList, String.length_toList]
  · have hfit := hfits a ((mergeBy_perm h).subset (List.mem_append_left _ ha))
    simp only [Span.fits, Bool.and_eq_true, decide_eq_true_eq] at hfit
    rw [String.length_toList]
    exact ⟨hfit.1.1, hfit.1.2, hfit.2⟩
  · rw [List.pairwise_map]
    exact pairwise_applied h

/-- A merge does to a text what its applied edits say, and nothing else. The merged text is as long as the
text without the applied spans and with their texts; each character outside of the spans is found where
the edits ending before it move it, in the order of the text, and each applied edit's text is found where
the edits starting before it move it. These places do not overlap, and there are no others. -/
theorem merge_pointwise (text : String) (edits : List Edit) (hfits : ∀ e ∈ edits, e.span.fits text.length = true) :
    ∃ m, apply text edits = .ok m ∧
      (m.text.length : Int) = text.length - (m.applied.map (·.span.length)).sum +
        (m.applied.map fun e => (e.text.length : Int)).sum ∧
      (∀ p < text.length, Outside m.applied p →
        ∃ q : Nat, (q : Int) = landing m.applied p ∧ m.text.toList[q]? = text.toList[p]?) ∧
      (∀ a ∈ m.applied, ∃ q : Nat, (q : Int) = place m.applied a ∧ a.text.toList <+: m.text.toList.drop q) ∧
      (∀ p p', p < p' → Outside m.applied p → Outside m.applied p' → landing m.applied p < landing m.applied p') ∧
      (∀ p, Outside m.applied p → ∀ a ∈ m.applied,
        landing m.applied p < place m.applied a ∨ place m.applied a + a.text.length ≤ landing m.applied p) ∧
      ∀ q < m.text.length, (∃ p < text.length, Outside m.applied p ∧ landing m.applied p = q) ∨
        ∃ a ∈ m.applied, place m.applied a ≤ q ∧ q < place m.applied a + a.text.length := by
  obtain ⟨m, hm⟩ := (mergeBy_ok_iff id text edits).2 hfits
  obtain ⟨htext, hdesc⟩ := mergeBy_text hm
  rw [List.map_id] at htext hdesc
  have hlength := length_splice m.applied (Nat.le_refl _) hdesc
  refine ⟨m, hm, ?_, fun p hp hout => ?_, fun a ha => ?_, fun p p' => landing_strictMono m.applied hdesc,
    fun p hout a ha => ?_, fun q hq => ?_⟩
  · rw [← htext, String.length_toList, String.length_toList] at hlength
    rw [hlength, gain_eq_sub]
    omega
  · rw [htext]
    exact getElem?_splice m.applied (Nat.le_refl _) hdesc (String.length_toList ▸ hp) hout
  · rw [htext]
    exact text_prefix_splice m.applied (Nat.le_refl _) hdesc a ha
  · rcases hout a ha with hbefore | hafter
    · exact .inl (landing_lt_place m.applied hdesc hout a ha hbefore)
    · exact .inr (place_le_landing m.applied hdesc hout a ha hafter)
  · rw [← String.length_toList, htext] at hq
    rw [← String.length_toList]
    exact splice_covered m.applied (Nat.le_refl _) hdesc hq

/-- Of the characters a to f, a and c are replaced; a text put in before e moves it and f. -/
theorem crowded_merge_pointwise : (∀ e ∈ crowded, e.span.fits "abcdef".length = true) ∧
    ∃ m, apply "abcdef" crowded = .ok m ∧ m.text = "ybzdwefend" ∧
      (∃ q : Nat, (q : Int) = landing m.applied 4 ∧ m.text.toList[q]? = some 'e') ∧
      ∃ q : Nat, (q : Int) = place m.applied (.insert 4 "w") ∧ "w".toList <+: m.text.toList.drop q := by
  have hfits : ∀ e ∈ crowded, e.span.fits "abcdef".length = true := by decide
  have happly : apply "abcdef" crowded =
      .ok ⟨"ybzdwefend", [.insert 6 "end", .insert 4 "w", .replace 2 1 "z", .replace 0 1 "y"], [.replace 0 4 "x"]⟩ := by
    cbv
  obtain ⟨m, hm, -, hsurvive, hplace, -⟩ := merge_pointwise "abcdef" crowded hfits
  obtain rfl := Except.ok.inj (happly.symm.trans hm)
  exact ⟨hfits, _, happly, rfl, hsurvive 4 (by decide) (by decide), hplace (.insert 4 "w") (by decide)⟩

end Merge

end Amend
