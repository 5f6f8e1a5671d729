/-
When checks go well. A check that is put together from others goes well exactly if they do, and its value
is put together from theirs.
-/
import Amend.Shape

namespace Amend.Shape

namespace Checked

variable {α β : Type}

theorem map_eq_valid_iff {f : α → β} {x : Checked α} {b : β} :
    f <$> x = .valid b ↔ ∃ a, x = .valid a ∧ f a = b := by
  rcases x with a | issues
  · show Checked.valid (f a) = .valid b ↔ _
    simp
  · exact ⟨nofun, nofun⟩

theorem seq_eq_valid_iff {f : Checked (α → β)} {x : Checked α} {b : β} :
    f <*> x = .valid b ↔ ∃ g a, f = .valid g ∧ x = .valid a ∧ g a = b := by
  rcases f with g | issues
  · rcases x with a | issues'
    · show Checked.valid (g a) = .valid b ↔ _
      simp
    · exact ⟨nofun, nofun⟩
  · exact ⟨nofun, nofun⟩

theorem within_eq_valid_iff {step : Step} {x : Checked α} {a : α} : x.within step = .valid a ↔ x = .valid a := by
  rcases x with a' | issues
  · exact Iff.rfl
  · exact ⟨nofun, nofun⟩

theorem andThen_eq_valid_iff {x : Checked α} {next : α → Checked β} {b : β} :
    x.andThen next = .valid b ↔ ∃ a, x = .valid a ∧ next a = .valid b := by
  rcases x with a | issues
  · show next a = .valid b ↔ _
    simp
  · exact ⟨nofun, nofun⟩

theorem toExcept_eq_ok_iff {x : Checked α} {a : α} : x.toExcept = .ok a ↔ x = .valid a := by
  rcases x with a' | issues
  · show Except.ok a' = .ok a ↔ Checked.valid a' = .valid a
    simp
  · exact ⟨nofun, nofun⟩

end Checked

variable {α : Type}

theorem mapping_eq_valid_iff {check : Entries → Checked α} {t : Tree} {a : α} :
    mapping check t = .valid a ↔ ∃ entries, t = .map entries ∧ check entries = .valid a := by
  cases t with
  | map entries =>
    show check entries = .valid a ↔ _
    simp
  | _ => exact ⟨nofun, nofun⟩

theorem closed_eq_valid_iff {known : List String} {entries : Entries} {check : Checked α} {a : α} :
    closed known entries check = .valid a ↔ strangers known entries = [] ∧ check = .valid a := by
  unfold closed
  split
  · rename_i hnone
    simp [hnone]
  · rename_i hsome
    constructor
    · exact nofun
    · exact fun h => absurd h.1 hsome

theorem optional_eq_valid_iff {entries : Entries} {name : String} {default a : α} {check : Tree → Checked α} :
    optional entries name default check = .valid a ↔
      Tree.entry? name entries = none ∧ default = a ∨
        ∃ t, Tree.entry? name entries = some t ∧ check t = .valid a := by
  unfold optional
  rcases Tree.entry? name entries with _ | t
  · simp
  · simp [Checked.within_eq_valid_iff]

end Amend.Shape
