/-
Rules by name: which findings are asked for by their codes, and which fixes by their names.
-/
import Amend.Code
import Amend.Selection

namespace Amend.Filter

/-- Keeps the findings that one of the codes names; no codes keep all. -/
def byCodes (codes : List String) : Option (Diagnostic → Except Failure Bool) :=
  if codes.isEmpty then none
  else some fun d => .ok (codes.any (Code.agrees · d.code))

/-- Accepts the fixes whose name or group is asked for; no names accept all. Blanks around a name
do not count, and blank names are passed over. -/
def byNames (names : List String) : Option (Candidate → Except Failure Bool) :=
  let asked := (names.map Text.trim).filter (· ≠ "")
  if asked.isEmpty then none
  else some fun c => .ok (asked.contains c.name || asked.contains (c.group.getD ""))

/-- The rules for codes and names. -/
def rules (codes names : List String) : Rules :=
  ⟨byCodes codes, byNames names, none⟩

end Amend.Filter
