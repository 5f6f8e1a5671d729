/-
The characters of a configuration text. Whatever the data hold, their text has no others than line feeds
and those that ASCII shows; so all of it may stand in a file, and reading the file changes no line end.
-/
import Amend.Proofs.Text.Digit
import Amend.Proofs.Tree
import Amend.Yaml.Printer
import Amend.Yaml.Token

namespace Amend.Yaml

/-- Characters that need no escapes: line feeds, and those that ASCII shows. -/
def Shows (cs : List Char) : Prop :=
  ∀ c ∈ cs, c = '\n' ∨ Text.Shown c

instance (cs : List Char) : Decidable (Shows cs) :=
  List.decidableBAll (fun c => c = '\n' ∨ Text.Shown c) cs

theorem isSpecial_eq_false_iff {c : Char} : isSpecial c = false ↔ c = '\n' ∨ Text.Shown c := by
  unfold isSpecial
  rw [Text.shown_iff]
  by_cases hc : c = '\n' <;> simp [hc]

theorem isAllowed_of_shows {cs : List Char} (h : Shows cs) {c : Char} (hc : c ∈ cs) :
    isAllowed c = true ∧ c ≠ '\r' := by
  rcases h c hc with rfl | hshown
  · exact ⟨rfl, by decide⟩
  · constructor
    · unfold isAllowed
      rw [Text.shown_iff.1 hshown]
      simp
    · rintro rfl
      exact absurd hshown (by decide)

/-! ## Pieces of text -/

section Pieces

variable {cs ds : List Char} {c : Char}

theorem shows_append : Shows (cs ++ ds) ↔ Shows cs ∧ Shows ds :=
  List.forall_mem_append

theorem shows_cons : Shows (c :: cs) ↔ (c = '\n' ∨ Text.Shown c) ∧ Shows cs :=
  List.forall_mem_cons

theorem shows_replicate (n : Nat) : Shows (List.replicate n ' ') := by
  intro c hc
  rw [List.eq_of_mem_replicate hc]
  exact .inr (by decide)

theorem shows_newLine (indent : Nat) : Shows (newLine indent) :=
  shows_cons.2 ⟨by decide, shows_replicate indent⟩

theorem shows_of_allShown (h : Text.AllShown cs) : Shows cs :=
  fun c hc => .inr (h c hc)

/-! ## Scalars -/

theorem shows_wrapped (quote : Bool) (indent : Nat) (split : Bool) (h : Shows cs) :
    ∀ column previous, Shows (wrapped quote indent split column previous cs) := by
  induction cs with
  | nil => exact fun _ _ => nofun
  | cons c rest ih =>
    obtain ⟨hc, hrest⟩ := shows_cons.1 h
    intro column previous
    unfold wrapped
    simp only
    split
    · exact shows_append.2 ⟨shows_newLine indent, ih hrest _ _⟩
    · split
      · refine shows_append.2 ⟨shows_append.2 ⟨?_, ?_⟩, ih hrest _ _⟩
        · split <;> decide
        · split
          · exact nofun
          · exact shows_replicate indent
      · split
        · exact shows_cons.2 ⟨by decide, shows_cons.2 ⟨by decide, ih hrest _ _⟩⟩
        · exact shows_cons.2 ⟨hc, ih hrest _ _⟩

theorem shows_of_escape? {written : List Char} (h : escape? c = some written) : Shows written := by
  unfold escape? at h
  split at h
  · rename_i letter hletter
    cases h
    have hletters : ∀ row ∈ shortEscapes, Shows ['\\', row.2] := by decide
    obtain ⟨before, after, hrow, -⟩ := List.lookup_eq_some_iff.1 hletter
    exact hletters (c, letter) (by simp [hrow])
  · simp only at h
    split at h
    · cases h
    · have hdigits : ∀ (letter : Char) (width : Nat), Text.Shown letter →
          Shows ('\\' :: letter :: (Text.hexUpper width c.toNat).toList) := fun letter width hletter =>
        shows_cons.2 ⟨by decide, shows_cons.2 ⟨.inr hletter, shows_of_allShown (Text.allShown_hexUpper width _)⟩⟩
      split at h
      · cases h
        exact hdigits 'x' 2 (by decide)
      · split at h
        · cases h
          exact hdigits 'u' 4 (by decide)
        · cases h
          exact hdigits 'U' 8 (by decide)

theorem shown_of_escape? (h : escape? c = none) : c = '\n' ∨ Text.Shown c := by
  unfold escape? at h
  split at h
  · cases h
  · simp only at h
    split at h
    · rename_i hplain
      exact isSpecial_eq_false_iff.1 (by simpa using hplain)
    · split at h
      · cases h
      · split at h <;> cases h

theorem shows_escaped (indent : Nat) (split : Bool) (cs : List Char) :
    ∀ column first fresh, Shows (escaped indent split column first fresh cs) := by
  have hguard : ∀ (p : Prop) [Decidable p], Shows (if p then ['\\'] else []) := by
    intro p _
    split <;> decide
  induction cs with
  | nil => exact fun _ _ _ => nofun
  | cons c rest ih =>
    intro column first fresh
    unfold escaped
    simp only
    split
    · rename_i written hwritten
      have hwritten := shows_of_escape? hwritten
      split
      · exact shows_append.2 ⟨shows_append.2 ⟨shows_append.2 ⟨hwritten,
          shows_cons.2 ⟨by decide, shows_newLine indent⟩⟩, hguard _⟩, ih _ _ _⟩
      · exact shows_append.2 ⟨hwritten, ih _ _ _⟩
    · rename_i hplain
      have hplain := shown_of_escape? hplain
      split
      · exact shows_append.2 ⟨shows_append.2 ⟨shows_cons.2 ⟨by decide, shows_newLine indent⟩, hguard _⟩,
          shows_cons.2 ⟨hplain, ih _ _ _⟩⟩
      · exact shows_cons.2 ⟨hplain, ih _ _ _⟩

/-- A text that needs no escapes has none, and any other gets them. -/
theorem shows_textScalar (indent column : Nat) (split : Bool) (s : String) :
    Shows (textScalar indent column split s).toList := by
  have hplain : styleOf s ≠ .doubleQuoted → Shows s.toList := by
    intro hstyle c hc
    unfold styleOf at hstyle
    simp only at hstyle
    split at hstyle
    · exact absurd rfl hstyle
    · rename_i hescapes
      have hany : s.toList.any isSpecial = false := by
        simp only [needsEscapes, Bool.or_eq_true, not_or] at hescapes
        exact Bool.eq_false_iff.2 hescapes.1.1
      exact isSpecial_eq_false_iff.1 (Bool.eq_false_iff.2 (List.any_eq_false.1 hany c hc))
  unfold textScalar
  simp only
  split
  · rename_i hstyle
    rw [String.toList_ofList]
    exact shows_wrapped _ _ _ (hplain (by rw [hstyle]; decide)) _ _
  · rename_i hstyle
    rw [String.toList_ofList]
    exact shows_append.2 ⟨shows_cons.2 ⟨by decide, shows_wrapped _ _ _ (hplain (by rw [hstyle]; decide)) _ _⟩, by decide⟩
  · rw [String.toList_ofList]
    exact shows_append.2 ⟨shows_cons.2 ⟨by decide, shows_escaped _ _ _ _ _ _⟩, by decide⟩

/-! ## Collections -/

theorem shows_string_append {s t : String} : Shows (s ++ t).toList ↔ Shows s.toList ∧ Shows t.toList := by
  rw [String.toList_append]
  exact shows_append

theorem shows_spaces (n : Nat) : Shows (spaces n).toList := by
  unfold spaces
  rw [String.toList_ofList]
  exact shows_replicate n

theorem shows_leaf {t : Tree} (h : t.Simple) (indent column : Nat) (split : Bool) :
    Shows (leaf indent column split t).toList := by
  have hwords : ∀ word ∈ ["true", "false", "[]", "\x7b\x7d"], Shows word.toList := by decide
  cases h with
  | bool b =>
    unfold leaf
    cases b
    · exact hwords "false" (by decide)
    · exact hwords "true" (by decide)
  | int n => exact shows_of_allShown (Text.allShown_toString_int n)
  | text s => exact shows_textScalar indent column split s
  | list _ => exact hwords "[]" (by decide)
  | map _ _ => exact hwords "\x7b\x7d" (by decide)

/-- Data whose text, alone and after a key, needs no escapes. -/
structure Printed (t : Tree) : Prop where
  alone : ∀ indent, Shows (printAt indent t).toList
  entry : ∀ indent column, Shows (entryValue indent column t).toList

theorem printed_of_leaf {t : Tree} (hleaf : ∀ indent column split, Shows (leaf indent column split t).toList)
    (halone : ∀ indent, printAt indent t = leaf indent indent true t)
    (hentry : ∀ indent column, entryValue indent column t = " " ++ leaf (indent + 2) (column + 1) true t) :
    Printed t := by
  constructor
  · intro indent
    rw [halone]
    exact hleaf _ _ _
  · intro indent column
    rw [hentry]
    exact shows_string_append.2 ⟨by decide, hleaf _ _ _⟩

/-- A text, and another in a line of its own. -/
theorem shows_below {s t : String} (hs : Shows s.toList) (indent : Nat) (ht : Shows t.toList) :
    Shows (s ++ "\n" ++ spaces indent ++ t).toList :=
  shows_string_append.2 ⟨shows_string_append.2 ⟨shows_string_append.2 ⟨hs, by decide⟩, shows_spaces indent⟩, ht⟩

theorem shows_printItems (indent : Nat) {items : List Tree} (h : ∀ item ∈ items, Printed item) :
    Shows (printItems indent items).toList := by
  have hfirst : ∀ item ∈ items, Shows ("- " ++ printAt (indent + 2) item).toList :=
    fun item hitem => shows_string_append.2 ⟨by decide, (h item hitem).alone _⟩
  induction items with
  | nil => unfold printItems; decide
  | cons item rest ih =>
    obtain ⟨hitem, hrest⟩ := List.forall_mem_cons.1 hfirst
    cases rest with
    | nil =>
      unfold printItems
      exact hitem
    | cons next rest =>
      unfold printItems
      exact shows_below hitem indent (ih (List.forall_mem_cons.1 h).2 hrest)

theorem shows_printEntry (indent : Nat) {key value : Tree} (hsimple : key.Simple) (hkey : Printed key)
    (hvalue : Printed value) : Shows (printEntry indent (key, value)).toList := by
  unfold printEntry
  split
  · exact shows_string_append.2 ⟨shows_string_append.2 ⟨shows_leaf hsimple _ _ _, by decide⟩, hvalue.entry _ _⟩
  · have hkey : Shows ("? " ++ printAt (indent + 2) key).toList := shows_string_append.2 ⟨by decide, hkey.alone _⟩
    exact shows_string_append.2 ⟨shows_below hkey indent (by decide), hvalue.alone _⟩

theorem shows_printEntries (indent : Nat) {entries : List (Tree × Tree)}
    (h : ∀ entry ∈ entries, Shows (printEntry indent entry).toList) :
    Shows (printEntries indent entries).toList := by
  induction entries with
  | nil => unfold printEntries; decide
  | cons entry rest ih =>
    obtain ⟨hentry, hrest⟩ := List.forall_mem_cons.1 h
    cases rest with
    | nil =>
      unfold printEntries
      exact hentry
    | cons next rest =>
      unfold printEntries
      exact shows_below hentry indent (ih hrest)

theorem printed_of_simple {t : Tree} (h : t.Simple) : Printed t := by
  induction h with
  | bool b => exact printed_of_leaf (shows_leaf (.bool b)) (fun _ => rfl) fun _ _ => rfl
  | int n => exact printed_of_leaf (shows_leaf (.int n)) (fun _ => rfl) fun _ _ => rfl
  | text s => exact printed_of_leaf (shows_leaf (.text s)) (fun _ => rfl) fun _ _ => rfl
  | list _ ih =>
    constructor
    · intro indent
      unfold printAt
      split
      · decide
      · exact shows_printItems indent ih
    · intro indent column
      unfold entryValue
      split
      · decide
      · exact shows_below (s := "") nofun indent (shows_printItems indent ih)
  | map hkeys _ ihkeys ihvalues =>
    have hentries : ∀ indent, Shows (printEntries indent _).toList := fun indent =>
      shows_printEntries indent fun entry hentry =>
        shows_printEntry indent (hkeys entry hentry) (ihkeys entry hentry) (ihvalues entry hentry)
    constructor
    · intro indent
      unfold printAt
      split
      · decide
      · exact hentries indent
    · intro indent column
      unfold entryValue
      split
      · decide
      · exact shows_below (s := "") nofun (indent + 2) (hentries (indent + 2))

/-- The text of simple data has line feeds and characters that ASCII shows. -/
theorem shows_print {t : Tree} (h : t.Simple) : Shows (print t).toList :=
  shows_string_append.2 ⟨(printed_of_simple h).alone 0, by decide⟩

end Pieces

end Amend.Yaml
