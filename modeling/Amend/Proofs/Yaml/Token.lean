/-
Reading tokens. A lexer stays within its text and holds no broken token until it stops; so the fault
it stops at is one of form, or the one that the text ends with, or the text has a far escape.
-/
import Amend.Proofs.Yaml.Scalar
import Mathlib.Data.List.InsertIdx

namespace Amend.Yaml

/-- Does a token say that the text cannot be read on? -/
def Token.isBroken : Token → Bool
  | .broken _ => true
  | _ => false

namespace Lexer

/-- A lexer somewhere in a text that has read all tokens so far. -/
structure Clean (text : List Char) (lx : Lexer) : Prop where
  place : lx.cur.In text
  whole : ∀ token ∈ lx.tokens, token.isBroken = false

/-- A lexer reads on within its text. -/
abbrev Scans (text : List Char) (r : Except Fault Lexer) : Prop :=
  Reads text (·.Clean text) r

variable {text : List Char} {lx : Lexer} (h : lx.Clean text)
include h

/-! ## Tokens and keys -/

theorem Clean.push {token : Token} (hwhole : token.isBroken = false) : (lx.push token).Clean text :=
  ⟨h.place, List.forall_mem_append.2 ⟨h.whole, List.forall_mem_singleton.2 hwhole⟩⟩

theorem Clean.take {token : Token} (hwhole : token.isBroken = false) (width : Nat) :
    (lx.take token width).Clean text :=
  ⟨h.place.skip width, (h.push hwhole).whole⟩

theorem Clean.insert {token : Token} (hwhole : token.isBroken = false) (number : Nat) :
    ∀ other ∈ lx.tokens.insertIdx number token, other.isBroken = false := by
  intro other hmem
  rcases List.eq_or_mem_of_mem_insertIdx hmem with rfl | hmem
  · exact hwhole
  · exact h.whole other hmem

theorem scans_dropKey : Scans text lx.dropKey := by
  unfold dropKey
  split
  · split
    · exact .malformed
    · exact ⟨h.place, h.whole⟩
  · exact h

theorem scans_markKey : Scans text lx.markKey := by
  unfold markKey
  split
  · exact h
  · exact (scans_dropKey h).bind fun lx h => ⟨h.place, h.whole⟩

theorem scans_dropStaleKeys : Scans text lx.dropStaleKeys := by
  unfold dropStaleKeys
  split
  · exact .malformed
  · exact ⟨h.place, h.whole⟩

/-! ## Indentation -/

theorem Clean.unwindTo (column : Int) (outer : List Int) : (unwindTo column outer lx).Clean text := by
  induction outer generalizing lx with
  | nil => exact h
  | cons column' rest ih =>
    unfold Lexer.unwindTo
    split
    · have hpush : (lx.push .blockEnd).Clean text := h.push rfl
      exact ih ⟨hpush.place, hpush.whole⟩
    · exact h

theorem Clean.unwind (column : Int) : (lx.unwind column).Clean text := by
  unfold Lexer.unwind
  split
  · exact h
  · exact h.unwindTo _ _

theorem Clean.indentTo? {column : Int} {deeper : Lexer} (hdeeper : lx.indentTo? column = some deeper) :
    deeper.Clean text := by
  unfold Lexer.indentTo? at hdeeper
  split at hdeeper
  · cases hdeeper
    exact ⟨h.place, h.whole⟩
  · cases hdeeper

theorem Clean.toNextToken (fuel : Nat) : (toNextToken fuel lx).Clean text := by
  induction fuel generalizing lx with
  | zero => exact h
  | succ fuel ih =>
    unfold Lexer.toNextToken
    extract_lets spaced commented
    have hplace : commented.In text := by
      unfold commented
      split
      · exact (h.place.skipWhile _).takeUntil _
      · exact h.place.skipWhile _
    clear_value commented
    simp only
    split
    · exact ⟨hplace, h.whole⟩
    · exact ih ⟨hplace.lineBreak, h.whole⟩

/-! ## One token -/

theorem scans_documentMark {token : Token} (hwhole : token.isBroken = false) :
    Scans text (lx.documentMark token) := by
  refine .bind (scans_dropKey (h.unwind (-1))) fun lx h => ?_
  exact .ok ⟨h.place.skip 3, (h.push hwhole).whole⟩

theorem scans_flowStart {token : Token} (hwhole : token.isBroken = false) : Scans text (lx.flowStart token) := by
  refine .bind (scans_markKey h) fun lx h => ?_
  exact .ok ⟨h.place.skip 1, (h.push hwhole).whole⟩

theorem scans_flowEnd {token : Token} (hwhole : token.isBroken = false) : Scans text (lx.flowEnd token) := by
  unfold flowEnd
  split
  · exact .malformed
  · refine .bind (scans_dropKey h) fun lx h => ?_
    exact .ok ⟨h.place.skip 1, (h.push hwhole).whole⟩

theorem scans_flowEntry : Scans text lx.flowEntry := by
  refine .bind (scans_dropKey ⟨h.place, h.whole⟩) fun lx h => ?_
  exact .ok (h.take rfl 1)

theorem scans_openBlock {token : Token} (hwhole : token.isBroken = false) : Scans text (lx.openBlock token) := by
  unfold openBlock
  split
  · exact h
  · split
    · exact .malformed
    · split
      · exact (h.indentTo? ‹_›).push hwhole
      · exact h

theorem scans_blockEntry : Scans text lx.blockEntry := by
  refine .bind (scans_openBlock h rfl) fun lx h => ?_
  refine .bind (scans_dropKey ⟨h.place, h.whole⟩) fun lx h => ?_
  exact .ok (h.take rfl 1)

theorem scans_explicitKey : Scans text lx.explicitKey := by
  refine .bind (scans_openBlock h rfl) fun lx h => ?_
  refine .bind (scans_dropKey ⟨h.place, h.whole⟩) fun lx h => ?_
  exact .ok (h.take rfl 1)

theorem scans_valueMark : Scans text lx.valueMark := by
  unfold valueMark
  split
  · rename_i key _
    extract_lets marked opened
    have hmarked : marked.Clean text := ⟨h.place, h.insert rfl key.number⟩
    have hopened : opened.Clean text := by
      unfold opened
      split
      · exact hmarked
      · split
        · rename_i hdeeper
          have hdeeper := hmarked.indentTo? hdeeper
          exact ⟨hdeeper.place, hdeeper.insert rfl key.number⟩
        · exact hmarked
    exact .ok (hopened.take rfl 1)
  · refine .bind (scans_openBlock h rfl) fun lx h => ?_
    refine .bind (scans_dropKey ⟨h.place, h.whole⟩) fun lx h => ?_
    exact .ok (h.take rfl 1)

theorem scans_blockText : Scans text lx.blockText := by
  refine .bind (scans_dropKey ⟨h.place, h.whole⟩) fun lx h => ?_
  refine .bind (scans_blockScalar h.place _) fun found hplace => ?_
  exact .ok ⟨hplace, (h.push rfl).whole⟩

theorem scans_tag : Scans text lx.tag := by
  unfold tag
  simp only
  split
  · refine .bind (scans_markKey h) fun lx h => ?_
    exact .ok ⟨h.place.skip _, (h.push rfl).whole⟩
  · exact .malformed

theorem scans_quotedText : Scans text lx.quotedText := by
  refine .bind (scans_markKey h) fun lx h => ?_
  refine .bind (scans_quotedScalar h.place) fun found hplace => ?_
  exact .ok ⟨hplace, (h.push rfl).whole⟩

theorem scans_plainText : Scans text lx.plainText := by
  refine .bind (scans_markKey h) fun lx h => ?_
  have hplace := in_plainWords h.place (lx.flow > 0) (lx.indent + 1) (lx.cur.rest.length + 1)
  generalize plainWords (lx.flow > 0) (lx.indent + 1) (lx.cur.rest.length + 1) lx.cur = words at hplace ⊢
  exact .ok ⟨hplace, (h.push rfl).whole⟩

theorem scans_token : Scans text lx.token := by
  refine .ite (scans_documentMark h rfl) ?_
  refine .ite (scans_documentMark h rfl) ?_
  refine .ite (scans_flowStart h rfl) ?_
  refine .ite (scans_flowStart h rfl) ?_
  refine .ite (scans_flowEnd h rfl) ?_
  refine .ite (scans_flowEnd h rfl) ?_
  refine .ite (scans_flowEntry h) ?_
  refine .ite (scans_blockEntry h) ?_
  refine .ite (scans_explicitKey h) ?_
  refine .ite (scans_valueMark h) ?_
  refine .ite (scans_blockText h) ?_
  refine .ite (scans_tag h) ?_
  refine .ite (scans_quotedText h) ?_
  exact .ite (scans_plainText h) .malformed

theorem scans_streamEnd : Scans text lx.streamEnd := by
  refine .bind (scans_dropKey (h.unwind (-1))) fun lx h => ?_
  exact .ok (h.push rfl)

/-- Reading one more token stays within the text. -/
theorem scans_step : Scans text lx.step := by
  unfold step
  refine (scans_dropStaleKeys h).bind fun lx h => ?_
  simp only
  split
  · exact scans_streamEnd (h.unwind _)
  · exact scans_token (h.unwind _)

/-! ## All tokens -/

theorem Clean.certain {fault : Fault} : .broken fault ∉ lx.certain :=
  fun hmem => nomatch h.whole _ (List.mem_of_mem_take hmem)

end Lexer

/-- What the reading of a text may stop at. -/
def Stops (text : List Char) (ending : Option Fault) (fault : Fault) : Prop :=
  fault = .malformed ∨ ending = some fault ∨ FarEscape text

namespace Lexer

variable {text : List Char} {ending : Option Fault} {fault : Fault}

theorem stops_of_reads {stopped : Fault} (hcut : stopped ≠ .cutOff) (h : stopped.isFormal = true ∨ FarEscape text) :
    Stops text ending stopped := by
  rcases h with hform | hfar
  · cases stopped with
    | malformed => exact .inl rfl
    | cutOff => exact absurd rfl hcut
    | undecodable _ => cases hform
    | impossible _ => cases hform
    | tooLarge _ => cases hform
  · exact .inr (.inr hfar)

theorem eq_of_mem_stop {lx : Lexer} (h : lx.Clean text) {stopped : Fault}
    (hmem : .broken fault ∈ lx.certain ++ [.broken stopped]) : fault = stopped := by
  rcases List.mem_append.1 hmem with hmem | hmem
  · exact absurd hmem h.certain
  · cases List.mem_singleton.1 hmem
    rfl

/-- A lexer stops at the end of its text, or where the text does not go on well. -/
theorem stops_of_mem_run (fuel : Nat) : ∀ {lx : Lexer}, lx.Clean text → .broken fault ∈ run ending fuel lx →
    Stops text ending fault := by
  induction fuel with
  | zero =>
    intro lx h hmem
    exact .inl (eq_of_mem_stop h hmem)
  | succ fuel ih =>
    intro lx h hmem
    have hstep := scans_step (h.toNextToken (lx.cur.rest.length + 1))
    unfold run at hmem
    simp only at hmem
    generalize toNextToken (lx.cur.rest.length + 1) lx = moved at hmem hstep
    generalize moved.cur.atEnd = ended at hmem
    have hend : ∀ {final : Fault}, ending = some final → .broken fault ∈ lx.certain ++ [.broken final] →
        Stops text ending fault := by
      rintro final rfl hmem
      exact .inr (.inl (congrArg some (eq_of_mem_stop h hmem).symm))
    rcases hr : moved.step with stopped | next
    · rw [hr] at hmem hstep
      have hread : .broken fault ∈ lx.certain ++ [.broken stopped] → stopped ≠ .cutOff → Stops text ending fault :=
        fun hmem hcut => eq_of_mem_stop h hmem ▸ stops_of_reads hcut hstep
      cases ending with
      | none =>
        cases stopped with
        | cutOff => exact .inl (eq_of_mem_stop h hmem)
        | _ => exact hread hmem nofun
      | some final =>
        cases ended
        · cases stopped with
          | cutOff => exact hend rfl hmem
          | _ => exact hread hmem nofun
        · exact hend rfl hmem
    · rw [hr] at hmem hstep
      cases ending with
      | none =>
        simp only at hmem
        split at hmem
        · exact nomatch hstep.whole _ hmem
        · exact ih hstep hmem
      | some final =>
        cases ended
        · simp only at hmem
          split at hmem
          · exact hend rfl hmem
          · exact ih hstep hmem
        · exact hend rfl hmem

end Lexer

/-- The tokens of a source stop at its end, or where its text does not go on well. -/
theorem stops_of_mem_tokens {source : Source} {fault : Fault} (h : .broken fault ∈ tokens source) :
    Stops source.text source.ending fault := by
  have hstart : (Lexer.start source.text).Clean source.text := ⟨List.suffix_refl _, nofun⟩
  unfold tokens at h
  simp only at h
  split at h
  · refine Lexer.stops_of_mem_run _ ?_ h
    exact ⟨hstart.place.next, hstart.whole⟩
  · exact Lexer.stops_of_mem_run _ hstart h

end Amend.Yaml
