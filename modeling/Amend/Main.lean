/-
The program: it reads the current folder, carries out its command line and writes back what changed.
The analyzer's report is read from standard input.
-/
import Amend.Clock
import Amend.CommandLine.Session

namespace Amend.Program

/-- The files and folders at a place, added to those found before. Links and hidden files are passed
over. -/
partial def gather (nodes : Table (List String) Node) (place : List String) :
    IO (Table (List String) Node) := do
  let name := "/" ++ "/".intercalate place
  let path ← IO.FS.realPath name
  if path.toString ≠ name then return nodes
  if ← path.isDir then
    let mut nodes := nodes.put place .folder
    for entry in ← path.readDir do
      if !entry.fileName.startsWith "." then
        nodes ← gather nodes (place ++ [entry.fileName])
    return nodes
  else return nodes.put place (.file (← IO.FS.readBinFile name).toList)

/-- The current folder and what is in it. -/
def readTree : IO FileTree := do
  let cwd := (FilePath.ofString (← IO.currentDir).toString).segments
  let above : Table (List String) Node :=
    (List.range cwd.length).foldl (fun nodes n => nodes.put (cwd.take n) .folder) []
  return ⟨← gather above cwd, cwd⟩

/-- Writes the files that changed. -/
def writeChanges (before after : FileTree) : IO Unit := do
  for (place, node) in after.nodes do
    if before.node? place ≠ some node then
      let name := "/" ++ "/".intercalate place
      match node with
      | .folder => IO.FS.createDirAll name
      | .file bytes => IO.FS.writeBinFile name (ByteArray.mk bytes.toArray)

/-- The time, by the clock of the files. -/
def now : IO String := do
  let (_, path) ← IO.FS.createTempFile
  let modified := (← path.metadata).modified
  IO.FS.removeFile path
  return Clock.stamp (Clock.momentOf modified.sec.toNat (modified.nsec.toNat / 1000))

/-- Does a command need the analyzer's report? -/
def needsReport : CommandLine.Invocation → Bool
  | .fix _ => true
  | .list _ => true
  | _ => false

/-- Carries out a command line, and gives the exit code. -/
def run (words : List String) : IO UInt32 := do
  match CommandLine.Invocation.ofWords words with
  | .error fault =>
    IO.eprintln fault.message
    return UInt32.ofNat CommandLine.usageCode
  | .ok invocation =>
    let tree ← readTree
    let report ← if needsReport invocation then (← IO.getStdin).readToEnd else pure ""
    let reply := CommandLine.perform ⟨tree, .given ⟨report, 0, ""⟩, ← now, Codecs.plain⟩ invocation
    writeChanges tree reply.tree
    IO.print reply.output
    for line in reply.log do
      IO.eprint (CommandLine.logText line)
    if let some fault := reply.escape then IO.eprintln fault.message
    return UInt32.ofNat reply.code

end Amend.Program

/-- The program. -/
def main (words : List String) : IO UInt32 :=
  Amend.Program.run words
