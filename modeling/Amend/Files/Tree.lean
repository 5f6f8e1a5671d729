/-
A tree of folders and files, without links, and the folder that relative names start from. A name
is followed segment by segment, and the first segment that cannot be followed is what goes wrong.
-/
import Amend.Codec.Fault
import Amend.FilePath
import Amend.Table

namespace Amend

open Codec (Bytes)

/-- A file or a folder. -/
inductive Node where
  | file (bytes : Bytes)
  | folder
  deriving DecidableEq, Repr

/-- Files and folders by the segments of their absolute names. The root itself is always there. -/
structure FileTree where
  nodes : Table (List String) Node
  cwd : List String
  deriving Repr

/-- What is wrong with a file name. -/
inductive NameFault where
  | notFound
  | alreadyThere
  | notFolder
  | isFolder
  | tooLong
  deriving DecidableEq, Repr

namespace NameFault

/-- The number of the fault. -/
def number : NameFault → Nat
  | .notFound => 2
  | .alreadyThere => 17
  | .notFolder => 20
  | .isFolder => 21
  | .tooLong => 36

/-- The fault in words. -/
def words : NameFault → String
  | .notFound => "No such file or directory"
  | .alreadyThere => "File exists"
  | .notFolder => "Not a directory"
  | .isFolder => "Is a directory"
  | .tooLong => "File name too long"

end NameFault

/-- Why a file could not be opened or a folder not be made. -/
inductive FileFault where
  | named (fault : NameFault) (path : FilePath)
  /-- The name has a zero character. -/
  | zeroByte
  deriving DecidableEq, Repr

/-- The fault in words. -/
def FileFault.message : FileFault → String
  | .named fault path => s!"[Errno {fault.number}] {fault.words}: {Text.quoted path.text}"
  | .zeroByte => "embedded null byte"

namespace FileTree

/-- The node at an absolute place. -/
def node? (tree : FileTree) (place : List String) : Option Node :=
  if place.isEmpty then some .folder else tree.nodes.get? place

/-- Puts a node at an absolute place. -/
def set (tree : FileTree) (place : List String) (node : Node) : FileTree :=
  { tree with nodes := tree.nodes.put place node }

/-- The longest name that a segment may have, in bytes. -/
def longestSegment : Nat := 255

/-- The longest name of a file, in bytes. -/
def longestName : Nat := 4095

/-- The place that segments lead to from a folder. All but the last must be there. -/
def follow (tree : FileTree) (here : List String) : List String → Except NameFault (List String)
  | [] => .ok here
  | segment :: rest =>
    match tree.node? here with
    | none => .error .notFound
    | some (.file _) => .error .notFolder
    | some .folder =>
      if segment = ".." then follow tree here.dropLast rest
      else if segment.utf8ByteSize > longestSegment then .error .tooLong
      else follow tree (here ++ [segment]) rest

/-- The place of a name, which need not be there. -/
def place (tree : FileTree) (path : FilePath) : Except FileFault (List String) :=
  if path.hasNul then .error .zeroByte
  else if path.text.utf8ByteSize > longestName then .error (.named .tooLong path)
  else
    (tree.follow (if path.isAbsolute then [] else tree.cwd) path.segments).mapError
      (FileFault.named · path)

/-- The bytes of a file. -/
def read (tree : FileTree) (path : FilePath) : Except FileFault Bytes := do
  let place ← tree.place path
  match tree.node? place with
  | none => .error (.named .notFound path)
  | some .folder => .error (.named .isFolder path)
  | some (.file bytes) => return bytes

/-- Gives a file its bytes, making it if its folder is there. -/
def write (tree : FileTree) (path : FilePath) (bytes : Bytes) : Except FileFault FileTree := do
  let place ← tree.place path
  match tree.node? place with
  | some .folder => .error (.named .isFolder path)
  | _ => return tree.set place (.file bytes)

/-- Is there a file or folder of this name? A name that is too long cannot be asked about. -/
def exists? (tree : FileTree) (path : FilePath) : Except FileFault Bool :=
  match tree.place path with
  | .ok place => .ok (tree.node? place).isSome
  | .error (.named .tooLong p) => .error (.named .tooLong p)
  | .error _ => .ok false

/-- Makes one folder. -/
def makeFolder (tree : FileTree) (path : FilePath) : Except FileFault FileTree := do
  let place ← tree.place path
  match tree.node? place with
  | some _ => .error (.named .alreadyThere path)
  | none => return tree.set place .folder

/-- Makes one folder, unless it is there already. -/
def settleFolder (tree : FileTree) (path : FilePath) : Except FileFault FileTree :=
  match tree.makeFolder path with
  | .error (.named .alreadyThere p) =>
    match tree.place path with
    | .ok place =>
      if tree.node? place = some .folder then .ok tree else .error (.named .alreadyThere p)
    | .error _ => .error (.named .alreadyThere p)
  | r => r

/-- Makes a folder and those above it. A folder that is there already is fine. -/
def makeFolders (tree : FileTree) : Nat → FilePath → Except FileFault FileTree
  | 0, path => tree.makeFolder path
  | depth + 1, path =>
    match tree.makeFolder path with
    | .error (.named .notFound p) =>
      if path.segments.isEmpty then .error (.named .notFound p)
      else do
        let above ← makeFolders tree depth path.parent
        above.settleFolder path
    | _ => tree.settleFolder path

/-- Makes a folder and those above it. -/
def ensureFolder (tree : FileTree) (path : FilePath) : Except FileFault FileTree :=
  tree.makeFolders (path.segments.length + 1) path

/-- Takes a file away. -/
def remove (tree : FileTree) (path : FilePath) : Except FileFault FileTree := do
  let place ← tree.place path
  match tree.node? place with
  | none => .error (.named .notFound path)
  | some .folder => .error (.named .isFolder path)
  | some (.file _) => return { tree with nodes := tree.nodes.erase place }

end FileTree

end Amend
