/-
Names of files. A name is a list of segments, absolute or not; empty segments and those that stand
for the folder itself are dropped, and the step to the parent is kept.
-/
namespace Amend

/-- A file name in its written form. `slashes` is the number of slashes it starts with: none for a
relative name, one or two for an absolute one. -/
structure FilePath where
  slashes : Nat
  segments : List String
  deriving DecidableEq, Repr

namespace FilePath

/-- The pieces of a text between its slashes. -/
def pieces (cs : List Char) : List (List Char) :=
  match cs with
  | [] => [[]]
  | c :: rest =>
    if c = '/' then [] :: pieces rest
    else match pieces rest with
      | [] => [[c]]
      | first :: more => (c :: first) :: more

/-- A file name as it is written. Exactly two slashes at the start are kept, any other number
counts as one. -/
def ofString (s : String) : FilePath :=
  let cs := s.toList
  let lead := (cs.takeWhile (· = '/')).length
  ⟨if lead = 2 then 2 else if lead = 0 then 0 else 1,
    (pieces cs).filterMap fun piece =>
      if piece = [] || piece = ['.'] then none else some (String.ofList piece)⟩

/-- A name that does not depend on the folder one stands in. -/
def isAbsolute (p : FilePath) : Bool :=
  p.slashes > 0

/-- The text of a file name. The empty relative name is written as a dot. -/
def text (p : FilePath) : String :=
  let body := "/".intercalate p.segments
  if p.slashes = 0 && p.segments.isEmpty then "." else
    String.ofList (List.replicate p.slashes '/') ++ body

/-- A name taken from a folder: an absolute name stands for itself. -/
def join (folder p : FilePath) : FilePath :=
  if p.isAbsolute then p else { folder with segments := folder.segments ++ p.segments }

/-- The folder that a name is in. -/
def parent (p : FilePath) : FilePath :=
  { p with segments := p.segments.dropLast }

/-- Follows segments from a folder, stepping to the parent where they say so. -/
def walk (folder : List String) : List String → List String
  | [] => folder
  | ".." :: rest => walk folder.dropLast rest
  | segment :: rest => walk (folder ++ [segment]) rest

/-- The absolute name without steps to a parent, relative names starting at `cwd`. -/
def resolve (cwd : List String) (p : FilePath) : FilePath :=
  ⟨1, walk [] ((if p.isAbsolute then [] else cwd) ++ p.segments)⟩

/-- The name relative to a folder that it lies below. -/
def relativeTo? (p folder : FilePath) : Option FilePath :=
  if p.slashes = folder.slashes && folder.segments.isPrefixOf p.segments then
    some ⟨0, p.segments.drop folder.segments.length⟩
  else none

/-- A name with a zero character, which no file can have. -/
def hasNul (p : FilePath) : Bool :=
  p.segments.any fun segment => segment.toList.contains '\x00'

end FilePath

end Amend
