/-
Reading scalars. A cursor only moves on within its text, and besides faults of form a scalar can be
refused for one reason: an escape by number past the last character.
-/
import Amend.Yaml.Value
import Mathlib.Algebra.Group.Nat.Defs
import Mathlib.Data.List.Basic

namespace Amend.Yaml

/-! ## Cursors -/

/-- Is a cursor somewhere in a text? -/
def Cursor.In (text : List Char) (cur : Cursor) : Prop :=
  cur.rest <:+ text

namespace Cursor

theorem rest_next (cur : Cursor) : cur.next.rest = cur.rest.tail := by
  unfold next
  split
  · rename_i h
    rw [h]
    rfl
  · rename_i c rest h
    rw [h]
    split
    · rfl
    · split <;> rfl

theorem rest_skip (n : Nat) : ∀ cur : Cursor, (cur.skip n).rest = cur.rest.drop n := by
  induction n with
  | zero => exact fun cur => rfl
  | succ n ih =>
    intro cur
    rw [skip, ih, rest_next, List.drop_tail]

variable {text : List Char} {cur : Cursor} (h : cur.In text)
include h

theorem In.next : cur.next.In text := by
  unfold In
  rw [rest_next]
  exact (List.tail_suffix _).trans h

theorem In.skip (n : Nat) : (cur.skip n).In text := by
  unfold In
  rw [rest_skip]
  exact (List.drop_suffix ..).trans h

theorem In.takeUntil (stops : Char → Bool) : (cur.takeUntil stops).2.In text :=
  h.skip _

theorem In.skipWhile (takes : Char → Bool) : (cur.skipWhile takes).In text :=
  h.takeUntil _

theorem In.skipIndent (bound : Nat) : (cur.skipIndent bound).In text :=
  h.skip _

theorem In.lineBreak : cur.lineBreak.2.In text := by
  unfold Cursor.lineBreak
  simp only
  split
  · exact h.skip 2
  · split
    · exact h.next
    · split
      · exact h.next
      · exact h

end Cursor

/-! ## Faults -/

/-- Does a text have an escape of eight digits past the last character? -/
def FarEscape (text : List Char) : Prop :=
  ∃ digits rest, ('\\' :: 'U' :: (digits ++ rest)) <:+ text ∧ digits.length = 8 ∧
    (∀ c ∈ digits, (Text.hexValue? c).isSome = true) ∧ 0x10ffff < inBase 16 digits

/-- Does the text break off, or not follow the format? -/
def Fault.isFormal : Fault → Bool
  | .malformed => true
  | .cutOff => true
  | _ => false

/-- Reading from a text gives something of a kind, or a fault of form, or the text has a far escape. -/
def Reads {α : Type} (text : List Char) (good : α → Prop) : Except Fault α → Prop
  | .ok a => good a
  | .error fault => fault.isFormal = true ∨ FarEscape text

section Reading

variable {α β : Type} {text : List Char} {good : α → Prop} {good' : β → Prop}

theorem Reads.bind {r : Except Fault α} {f : α → Except Fault β} (h : Reads text good r)
    (hf : ∀ a, good a → Reads text good' (f a)) : Reads text good' (r >>= f) := by
  cases r with
  | error fault => exact h
  | ok a => exact hf a h

theorem Reads.ite {c : Prop} [Decidable c] {r r' : Except Fault α} (h : Reads text good r) (h' : Reads text good r') :
    Reads text good (if c then r else r') := by
  split
  · exact h
  · exact h'

theorem Reads.ok {a : α} (h : good a) : Reads text good (pure a) :=
  h

theorem Reads.malformed : Reads text good (.error .malformed) :=
  .inl rfl

theorem Reads.cutOff : Reads text good (.error .cutOff) :=
  .inl rfl

end Reading

/-- A scalar is read within a text. -/
abbrev Scans (text : List Char) (r : Scanned) : Prop :=
  Reads text (fun found => found.2.In text) r

/-- Characters that stand before those that are scanned. -/
theorem Scans.before {text : List Char} {r : Scanned} (h : Scans text r) (taken : List Char) :
    Scans text (do let (rest, last) ← r; return (taken ++ rest, last)) :=
  h.bind fun _ hfound => hfound

/-! ## Escapes by number -/

theorem hexValue?_lt {c : Char} {n : Nat} (h : Text.hexValue? c = some n) : n < 16 := by
  unfold Text.hexValue? at h
  simp only [Bool.and_eq_true, decide_eq_true_eq, Char.le_def, UInt32.le_iff_toNat_le] at h
  have h9 : '9'.val.toNat = 57 := rfl
  have hf : 'f'.val.toNat = 102 := rfl
  have hF : 'F'.val.toNat = 70 := rfl
  have hc : c.toNat = c.val.toNat := rfl
  split at h
  · cases h; omega
  · split at h
    · cases h; omega
    · split at h
      · cases h; omega
      · cases h

theorem foldl_lt {base : Nat} : ∀ {values : List Nat} {n bound : Nat}, (∀ d ∈ values, d < base) → n < bound →
    values.foldl (fun n d => n * base + d) n < bound * base ^ values.length
  | [], n, bound, _, hn => by simpa using hn
  | d :: values, n, bound, hvalues, hn => by
    obtain ⟨hd, hvalues⟩ := List.forall_mem_cons.1 hvalues
    have hstep : n * base + d < bound * base := by
      have := Nat.mul_le_mul_right base (Nat.succ_le_of_lt hn)
      rw [Nat.succ_mul] at this
      omega
    have := foldl_lt hvalues hstep
    rwa [Nat.mul_assoc, ← Nat.pow_succ'] at this

/-- Few digits write no number past the last character. -/
theorem inBase_sixteen_lt (digits : List Char) : inBase 16 digits < 16 ^ digits.length := by
  have hvalues : ∀ d ∈ digits.filterMap Text.hexValue?, d < 16 := by
    intro d hd
    obtain ⟨c, -, hc⟩ := List.mem_filterMap.1 hd
    exact hexValue?_lt hc
  have hlt := foldl_lt hvalues (Nat.zero_lt_one)
  rw [Nat.one_mul] at hlt
  exact Nat.lt_of_lt_of_le hlt (Nat.pow_le_pow_right (by decide) (List.length_filterMap_le ..))

theorem filterMap_of_mapM {α β : Type} {f : α → Option β} : ∀ {items : List α} {values : List β},
    items.mapM f = some values → items.filterMap f = values
  | [], values, h => by
    cases h
    rfl
  | a :: items, values, h => by
    rw [List.mapM_cons] at h
    obtain ⟨b, hb, h⟩ := Option.bind_eq_some_iff.1 h
    obtain ⟨rest, hrest, h⟩ := Option.bind_eq_some_iff.1 h
    cases h
    rw [List.filterMap_cons_some hb, filterMap_of_mapM hrest]

theorem escapeWidth?_cases {c : Char} {width : Nat} (hc : escapeWidth? c = some width) :
    width ≤ 4 ∨ width = 8 ∧ c = 'U' := by
  unfold escapeWidth? at hc
  split at hc
  · cases hc; exact .inl (by decide)
  · split at hc
    · cases hc; exact .inl (by decide)
    · split at hc
      · cases hc; exact .inr ⟨rfl, ‹_›⟩
      · cases hc

/-- An escape at a cursor is an escape in the text. -/
theorem Cursor.In.escape {text : List Char} {cur : Cursor} (h : cur.In text) (hslash : cur.char = '\\')
    (hmark : cur.peek 1 = 'U') : ('\\' :: 'U' :: (cur.skip 2).rest) <:+ text := by
  unfold Cursor.In at h
  rw [Cursor.rest_skip]
  unfold Cursor.char Cursor.peek at hslash
  unfold Cursor.peek at hmark
  match hrest : cur.rest, h with
  | [], _ =>
    rw [hrest] at hslash
    exact absurd hslash (by decide)
  | [c], _ =>
    rw [hrest] at hmark
    cases hmark
  | c :: e :: rest, h =>
    rw [hrest] at hslash hmark
    cases hslash
    cases hmark
    exact h

section Scalars

variable {text : List Char} {cur : Cursor} (h : cur.In text)
include h

/-- An escape by number is refused as a value only if it is one of eight digits. -/
theorem scans_numberEscape {width : Nat} (hwidth : width ≤ 4 ∨ width = 8 ∧ ('\\' :: 'U' :: cur.rest) <:+ text) :
    Scans text (numberEscape width cur) := by
  unfold numberEscape
  simp only
  split
  · exact .malformed
  · rename_i hhex
    split
    · exact .cutOff
    · rename_i hlen
      rcases hvalues : (cur.rest.take width).mapM Text.hexValue? with _ | values
      · exact .malformed
      · simp only
        have hnumber : values.foldl (fun n d => n * 16 + d) 0 = inBase 16 (cur.rest.take width) := by
          unfold inBase
          rw [filterMap_of_mapM hvalues]
        rw [hnumber]
        by_cases hfar : inBase 16 (cur.rest.take width) > 0x10ffff
        · have hlength : (cur.rest.take width).length ≤ width := List.length_take_le ..
          rcases hwidth with hfew | ⟨rfl, hplace⟩
          · have hlt := inBase_sixteen_lt (cur.rest.take width)
            have hpow : 16 ^ (cur.rest.take width).length ≤ 16 ^ 4 :=
              Nat.pow_le_pow_right (by decide) (by omega)
            omega
          · have hescape : FarEscape text := by
              refine ⟨cur.rest.take 8, cur.rest.drop 8, ?_, by omega, ?_, hfar⟩
              · rwa [List.take_append_drop]
              · intro c hc
                by_contra hnone
                exact hhex (by simpa using ⟨c, hc, by simpa using hnone⟩)
            rw [if_pos hfar]
            split <;> exact .inr hescape
        · rw [if_neg (by omega), if_neg hfar]
          exact h.skip width

/-! ## Quoted scalars -/

theorem scans_quotedBreaks (fuel : Nat) : Scans text (quotedBreaks fuel cur) := by
  induction fuel generalizing cur with
  | zero => exact .malformed
  | succ fuel ih =>
    unfold quotedBreaks
    split
    · exact .malformed
    · simp only
      split
      · exact (ih (h.skipWhile _).lineBreak).bind fun found hfound => hfound
      · exact h.skipWhile _

theorem scans_quotedBody (double : Bool) (fuel : Nat) : Scans text (quotedBody double fuel cur) := by
  induction fuel generalizing cur with
  | zero => exact .malformed
  | succ fuel ih =>
    unfold quotedBody
    simp only
    split
    · exact .cutOff
    · split
      · split
        · exact .cutOff
        · split
          · exact (scans_quotedBreaks (h.takeUntil _).lineBreak _).bind fun found hfound => (ih hfound).before _
          · exact (ih (h.takeUntil _)).before _
      · split
        · split
          · exact h.next
          · split
            · rename_i hslash
              split
              · exact (ih (h.skip 2)).before _
              · rename_i hwidth
                refine (scans_numberEscape (h.skip 2) ?_).bind fun found hfound => (ih hfound).before _
                exact (escapeWidth?_cases hwidth).imp_right fun hU => ⟨hU.1, h.escape hslash hU.2⟩
              · split
                · exact (scans_quotedBreaks h.next.lineBreak _).bind fun found hfound => (ih hfound).before _
                · split
                  · exact .cutOff
                  · exact .malformed
            · exact (ih h.next).before _
        · split
          · split
            · exact (ih (h.skip 2)).before _
            · exact h.next
          · exact (ih h.next).before _

theorem scans_quotedScalar : Scans text (quotedScalar cur) :=
  scans_quotedBody h.next _ _

/-! ## Plain scalars -/

theorem in_plainBreaks (fuel : Nat) : (plainBreaks fuel cur).2.In text := by
  induction fuel generalizing cur with
  | zero => exact h
  | succ fuel ih =>
    unfold plainBreaks
    split
    · exact ih h.next
    · split
      · simp only
        split
        · exact h.lineBreak
        · exact ih h.lineBreak
      · exact h

theorem in_plainGap : (plainGap cur).2.2.In text := by
  unfold plainGap
  simp only
  split
  · split
    · exact (h.takeUntil _).lineBreak
    · have hbreaks := in_plainBreaks (h.takeUntil (· ≠ ' ')).lineBreak
        (((cur.takeUntil (· ≠ ' ')).2.lineBreak.2.rest.length) + 1)
      split
      · rename_i hfound
        rw [hfound] at hbreaks
        exact hbreaks
      · rename_i hfound
        rw [hfound] at hbreaks
        exact hbreaks
  · exact h.takeUntil _

theorem in_plainWords (flow : Bool) (indent : Int) (fuel : Nat) : (plainWords flow indent fuel cur).2.2.In text := by
  induction fuel generalizing cur with
  | zero => exact h
  | succ fuel ih =>
    unfold plainWords
    simp only
    generalize (if cur.char = '#' then [] else plainWord flow cur.rest) = word
    have hgap := in_plainGap (h.skip word.length)
    generalize plainGap (cur.skip word.length) = gap at hgap ⊢
    split
    · exact h
    · split
      · exact hgap
      · split
        · exact ih hgap
        · exact ih hgap

/-! ## Block scalars -/

theorem reads_blockSigns : Reads text (fun signs => signs.2.2.In text) (blockSigns cur) := by
  have hjudge : ∀ (chomping : Chomping) (increment : Option Nat) {next : Cursor}, next.In text →
      Reads text (fun signs => signs.2.2.In text)
        (if increment = some 0 then .error .malformed
          else if !(endsLine next.char || next.char = ' ') then .error .malformed
          else (pure (chomping, increment, next) : Except Fault (Chomping × Option Nat × Cursor))) := by
    intro chomping increment next hnext
    split
    · exact .malformed
    · split
      · exact .malformed
      · exact hnext
  unfold blockSigns
  extract_lets chomping? digit?
  rcases chomping? cur.char with _ | chomping
  · rcases digit? cur.char with _ | n
    · exact hjudge _ _ h
    · rcases chomping? (cur.peek 1) with _ | chomping
      · exact hjudge _ _ h.next
      · exact hjudge _ _ (h.skip 2)
  · rcases digit? (cur.peek 1) with _ | n
    · exact hjudge _ _ h.next
    · exact hjudge _ _ (h.skip 2)

theorem in_blockLead (fuel : Nat) (deepest : Nat) : (blockLead fuel cur deepest).2.2.In text := by
  induction fuel generalizing cur deepest with
  | zero => exact h
  | succ fuel ih =>
    unfold blockLead
    split
    · exact ih h.next _
    · split
      · exact ih h.lineBreak _
      · exact h

theorem in_blockBreaks (indent : Nat) (fuel : Nat) : (blockBreaks indent fuel cur).2.In text := by
  induction fuel generalizing cur with
  | zero => exact h
  | succ fuel ih =>
    unfold blockBreaks
    simp only
    split
    · exact ih (h.skipIndent _).lineBreak
    · exact h.skipIndent _

theorem in_blockLines (fold : Bool) (chomping : Chomping) (indent : Nat) (fuel : Nat) (breaks : List Char) :
    (blockLines fold chomping indent fuel cur breaks).2.In text := by
  induction fuel generalizing cur breaks with
  | zero => exact h
  | succ fuel ih =>
    unfold blockLines
    simp only
    have hafter := in_blockBreaks (h.takeUntil endsLine).lineBreak indent
      ((cur.takeUntil endsLine).2.lineBreak.2.rest.length + 1)
    split
    · exact ih hafter _
    · dsimp only
      exact hafter

theorem scans_blockScalar (outer : Int) : Scans text (blockScalar outer cur) := by
  unfold blockScalar
  refine (reads_blockSigns h.next).bind fun ⟨chomping, increment, next⟩ hsigns => ?_
  dsimp -zeta only
  extract_lets spaced commented
  have hline : commented.In text := by
    unfold commented
    split
    · exact (hsigns.skipWhile _).takeUntil _
    · exact hsigns.skipWhile _
  clear_value commented
  replace hline := hline.lineBreak
  generalize commented.lineBreak = lineEnd at hline ⊢
  split
  · exact .malformed
  · cases increment with
    | some n =>
      simp only
      split
      · exact in_blockLines (in_blockBreaks hline _ _) ..
      · exact in_blockBreaks hline ..
    | none =>
      simp only
      split
      · exact in_blockLines (in_blockLead hline _ _) ..
      · exact in_blockLead hline ..

end Scalars

end Amend.Yaml
