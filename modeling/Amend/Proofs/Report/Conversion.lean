/-
What a report converts to. A conversion that comes through has read its messages one by one, each of
them with a document that is kept to the end, or has found that it belongs to no file. Findings and
fixes are gathered from what the messages converted to; a fix is on offer for a finding only if a
message that converted to this finding offers it.
-/
import Amend.Proofs.Files.Loader
import Amend.Proofs.LineIndex
import Amend.Proofs.Table
import Amend.Report.Conversion
import Mathlib.Data.List.Forall2

namespace Amend.Report

/-! ## Fixes on offer -/

theorem FixTable.mem_of_add (fixes : FixTable) (d other : Diagnostic) (c c' : Candidate) :
    c' ∈ (fixes.add d c).of other ↔ c' ∈ fixes.of other ∨ d = other ∧ c' = c := by
  unfold add of
  rw [Table.get?_alter]
  by_cases hd : d = other
  · subst hd
    rw [if_pos rfl, Option.getD_some]
    split
    · rename_i hknown
      constructor
      · exact .inl
      · rintro (h | ⟨-, rfl⟩)
        · exact h
        · exact List.contains_iff_mem.1 hknown
    · simp
  · simp [hd]

/-- Takes in the fix that a message converted to. -/
def Converted.addTo (fixes : FixTable) (c : Converted) : FixTable :=
  match c.diagnostic, c.candidate with
  | some d, some candidate => fixes.add d candidate
  | _, _ => fixes

theorem mem_of_addTo {fixes : FixTable} {c : Converted} {d : Diagnostic} {candidate : Candidate} :
    candidate ∈ (c.addTo fixes).of d ↔
      candidate ∈ fixes.of d ∨ c.diagnostic = some d ∧ c.candidate = some candidate := by
  obtain ⟨diagnostic, offered, journal⟩ := c
  rcases diagnostic with _ | d' <;> rcases offered with _ | candidate' <;>
    simp [Converted.addTo, FixTable.mem_of_add, eq_comm]

/-- A fix is on offer if it was before or if a message that converted to the finding offers it. -/
theorem mem_of_foldl {cs : List Converted} {d : Diagnostic} {candidate : Candidate} : ∀ {fixes : FixTable},
    candidate ∈ (cs.foldl Converted.addTo fixes).of d ↔
      candidate ∈ fixes.of d ∨ ∃ c ∈ cs, c.diagnostic = some d ∧ c.candidate = some candidate := by
  induction cs with
  | nil => simp
  | cons c rest ih =>
    intro fixes
    rw [List.foldl_cons, ih, mem_of_addTo, List.exists_mem_cons_iff, or_assoc]

/-! ## Messages -/

/-- What a message converts to, given the documents that a loader keeps. -/
inductive Reading (settings : Settings) (loader : Loader) (m : Message) : Converted → Prop
  | homeless (journal : Journal) : Reading settings loader m ⟨some (homeless m), none, journal⟩
  | inFile (path : String) (document : Document) (hkept : loader.kept? path = some document) :
      Reading settings loader m (convertIn settings path document m)

theorem Reading.extend {settings : Settings} {loader later : Loader} {m : Message} {c : Converted}
    (h : Reading settings loader m c) (hl : later.Extends loader) : Reading settings later m c := by
  cases h with
  | homeless journal => exact .homeless journal
  | inFile path document hkept => exact .inFile path document (hl path document hkept)

section Conversions

variable {settings : Settings} {root : FilePath}

/-- The courses of the conversion of one message. -/
theorem convert_cases (settings : Settings) (root : FilePath) (ws : Workspace) (m : Message) :
    (convert settings root ws m).2.loader.Extends ws.loader ∧
    ∀ c, (convert settings root ws m).1 = .ok c → Reading settings (convert settings root ws m).2.loader m c := by
  unfold convert
  split
  · exact ⟨ws.loader.extends_refl, fun c h => by cases h; exact .homeless _⟩
  · rename_i filename _
    generalize relativePath ws.tree.cwd root filename = path
    have hextends : (ws.load path).2.loader.Extends ws.loader := ws.loader.load_extends ws.tree path
    have hkept : ∀ document, (ws.load path).1 = .ok document → (ws.load path).2.loader.kept? path = some document :=
      fun document => (ws.loader.load_ok_iff ws.tree path document).1
    simp only
    generalize ws.load path = loaded at hextends hkept ⊢
    obtain ⟨fault | document, later⟩ := loaded
    · simp only
      split
      · exact ⟨hextends, fun c h => by cases h; exact .homeless _⟩
      · exact ⟨hextends, fun c h => by cases h⟩
    · exact ⟨hextends, fun c h => by cases h; exact .inFile path document (hkept document rfl)⟩

/-- What the messages of a report converted to, one by one, and what was gathered from it. -/
structure Account (settings : Settings) (fixes : FixTable) (messages : List Message) (conversion : Conversion)
    (cs : List Converted) : Prop where
  each : List.Forall₂ (Reading settings conversion.workspace.loader) messages cs
  diagnostics : conversion.diagnostics = cs.flatMap (·.diagnostic.toList)
  fixes : conversion.fixes = cs.foldl Converted.addTo fixes

/-- The conversion that reads one message first. -/
def Conversion.after (others : Conversion) (c : Converted) : Conversion :=
  { others with diagnostics := c.diagnostic.toList ++ others.diagnostics
                journal := c.journal ++ others.journal }

theorem convertAll_ok {ws : Workspace} {m : Message} {c : Converted} (h : (convert settings root ws m).1 = .ok c)
    (fixes : FixTable) (rest : List Message) :
    convertAll settings root ws fixes (m :: rest) =
      (convertAll settings root (convert settings root ws m).2 (c.addTo fixes) rest).after c := by
  rw [convertAll]
  rcases hc : convert settings root ws m with ⟨result, later⟩
  rw [hc] at h
  cases h
  rfl

theorem convertAll_error {ws : Workspace} {m : Message} {fault : LoadFault}
    (h : (convert settings root ws m).1 = .error fault) (fixes : FixTable) (rest : List Message) :
    convertAll settings root ws fixes (m :: rest) =
      ⟨[], fixes, [], .error fault, (convert settings root ws m).2⟩ := by
  rw [convertAll]
  rcases hc : convert settings root ws m with ⟨result, later⟩
  rw [hc] at h
  cases h
  rfl

theorem convertAll_extends (messages : List Message) : ∀ (ws : Workspace) (fixes : FixTable),
    (convertAll settings root ws fixes messages).workspace.loader.Extends ws.loader := by
  induction messages with
  | nil => exact fun ws _ => ws.loader.extends_refl
  | cons m rest ih =>
    intro ws fixes
    have hextends := (convert_cases settings root ws m).1
    rcases hc : (convert settings root ws m).1 with fault | c
    · rw [convertAll_error hc]
      exact hextends
    · rw [convertAll_ok hc]
      exact (ih _ _).trans hextends

/-- A conversion that comes through has an account. -/
theorem exists_account (messages : List Message) : ∀ (ws : Workspace) (fixes : FixTable),
    (convertAll settings root ws fixes messages).ending = .ok () →
    ∃ cs, Account settings fixes messages (convertAll settings root ws fixes messages) cs := by
  -- the documents of earlier messages are still kept when the later ones have been read
  induction messages with
  | nil => exact fun ws fixes _ => ⟨[], .nil, rfl, rfl⟩
  | cons m rest ih =>
    intro ws fixes hend
    rcases hc : (convert settings root ws m).1 with fault | c
    · rw [convertAll_error hc] at hend
      cases hend
    · rw [convertAll_ok hc] at hend ⊢
      obtain ⟨cs, hcs⟩ := ih _ _ hend
      have hreading := (convert_cases settings root ws m).2 c hc
      refine ⟨c :: cs, .cons (hreading.extend (convertAll_extends rest _ _)) hcs.each, ?_, hcs.fixes⟩
      rw [List.flatMap_cons, ← hcs.diagnostics]
      rfl

end Conversions

end Amend.Report
