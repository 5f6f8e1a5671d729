/-
One loader asked by several callers at once. Each call looks the name up, reads the file and keeps what
it read, and between any two of these steps other calls may take theirs and the files may change.
-/
import Amend.Files.Loader

namespace Amend

/-- How far a call has come. -/
inductive Progress where
  /-- The name was not looked up yet. -/
  | asked
  /-- Nothing was kept under the name. -/
  | missed
  /-- The file was read. -/
  | fetched (document : Document)
  | answered (result : Except LoadFault Document)

/-- A call for the document of a name. -/
structure Call where
  path : String
  progress : Progress

/-- A loader, the files as they are, and the calls. -/
structure Desk where
  loader : Loader
  tree : FileTree
  calls : List Call

/-- One thing that happens. -/
inductive Happening where
  /-- A call takes its next step. -/
  | turn (i : Nat)
  /-- The files are changed by others. -/
  | change (tree : FileTree)

namespace Desk

/-- A desk at which these names are asked for. -/
def start (loader : Loader) (tree : FileTree) (paths : List String) : Desk :=
  ⟨loader, tree, paths.map fun path => ⟨path, .asked⟩⟩

/-- The desk after a call came so far. -/
def enter (desk : Desk) (i : Nat) (progress : Progress) : Desk :=
  { desk with calls := desk.calls.modify i fun call => { call with progress := progress } }

/-- The next step of call `i`. -/
def turn (desk : Desk) (i : Nat) : Desk :=
  match desk.calls[i]? with
  | none => desk
  | some call =>
    match call.progress with
    | .asked =>
      match desk.loader.kept? call.path with
      | some document => desk.enter i (.answered (.ok document))
      | none => desk.enter i .missed
    | .missed =>
      match desk.loader.fetch desk.tree call.path with
      | .error fault => desk.enter i (.answered (.error fault))
      | .ok document => desk.enter i (.fetched document)
    | .fetched document =>
      let (kept, loader) := desk.loader.keep document
      { desk with loader := loader }.enter i (.answered (.ok kept))
    | .answered _ => desk

/-- The desk after something happened. -/
def step (desk : Desk) : Happening → Desk
  | .turn i => desk.turn i
  | .change tree => { desk with tree := tree }

/-- The desk after one thing happened after the other. -/
def run (desk : Desk) (course : List Happening) : Desk :=
  course.foldl step desk

end Desk

end Amend
