/-
Findings by file. Files come in the order of their first finding, and each keeps its findings in
the order in which they were reported.
-/
import Amend.Diagnostic
import Amend.Table

namespace Amend

/-- A finding that names no file. -/
structure MissingFile where
  diagnostic : Diagnostic
  deriving DecidableEq, Repr

/-- The complaint in words. -/
def MissingFile.message (e : MissingFile) : String :=
  s!"Diagnostic {e.diagnostic.code} does not reference a source file"

/-- Findings by file, and the findings without one. -/
structure Grouping where
  groups : Table String (List Diagnostic)
  missing : List MissingFile
  deriving Repr

namespace Grouping

/-- Puts one more finding where it belongs. -/
def add (g : Grouping) (d : Diagnostic) : Grouping :=
  match d.file? with
  | none => { g with missing := g.missing ++ [⟨d⟩] }
  | some path => { g with groups := g.groups.alter path fun ds => ds.getD [] ++ [d] }

/-- Sorts findings by file. -/
def ofDiagnostics (ds : List Diagnostic) : Grouping :=
  ds.foldl add ⟨[], []⟩

/-- Sorts findings by file, refusing those without one. -/
def strict (ds : List Diagnostic) : Except MissingFile (Table String (List Diagnostic)) :=
  let g := ofDiagnostics ds
  match g.missing with
  | [] => .ok g.groups
  | e :: _ => .error e

end Grouping

end Amend
