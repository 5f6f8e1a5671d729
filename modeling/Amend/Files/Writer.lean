/-
Writing files. A file is opened first, which empties it, and its bytes are made after that: a text
that the encoding does not have leaves an empty file behind.
-/
import Amend.Codec.Registry
import Amend.Failure
import Amend.Files.Tree
import Amend.Journal

namespace Amend

open Codec (CodecFault EncodeFault)

/-- Why a text could not be written. -/
inductive WriteFault where
  /-- The file could not be opened. -/
  | refused (path : String) (fault : NameFault) (target : FilePath)
  | zeroByte
  | zeroInEncoding
  | unknownEncoding (name : String)
  | unencodable (fault : EncodeFault)
  /-- The codec failed in a way of its own, which is none of the system's. -/
  | broken (fault : CodecFault)
  deriving DecidableEq, Repr

namespace WriteFault

/-- The fault in words. -/
def message : WriteFault → String
  | .refused path fault target =>
    s!"Failed to write {path}: {(FileFault.named fault target).message}"
  | .zeroByte => FileFault.zeroByte.message
  | .zeroInEncoding => "embedded null character"
  | .unknownEncoding name => s!"unknown encoding: {name}"
  | .unencodable fault => fault.message
  | .broken fault => fault.message

/-- The fault as a failure of the writer: only a file that cannot be opened is one that the writer
answers for. -/
def toFailure (fault : WriteFault) : Failure :=
  match fault with
  | .refused .. => .unwritten fault.message
  | .broken fault => .broken fault.kind fault.message
  | fault => .broken "write fault" fault.message

end WriteFault

/-- Writes a text to the file `target`, which callers know as `path`. -/
def writeText (codecs : Codecs) (tree : FileTree) (path : String) (target : FilePath)
    (encoding content : String) : Except WriteFault Unit × FileTree :=
  if encoding.toList.contains '\x00' then (.error .zeroInEncoding, tree)
  else match tree.write target [] with
    | .error .zeroByte => (.error .zeroByte, tree)
    | .error (.named fault _) => (.error (.refused path fault target), tree)
    | .ok emptied =>
      match codecs.find? encoding with
      | none => (.error (.unknownEncoding encoding), emptied)
      | some codec =>
        match codec.encode content with
        | .error (.unencodable fault) => (.error (.unencodable fault), emptied)
        | .error (.broken fault) => (.error (.broken fault), emptied)
        | .ok bytes => (.ok (), (tree.write target bytes).toOption.getD emptied)

/-- What is said of a text that was written. -/
def writtenNote (target : FilePath) (content : String) : LogLine :=
  ⟨.debug, .files, s!"Wrote {content.length} characters to {target.text}"⟩

/-- What a writer did: what came of it, the files it leaves, and what it said. -/
structure WriteResult where
  result : Except Failure Unit
  tree : FileTree
  notes : List LogLine

/-- Writes the new text of a file that callers know by its path. -/
structure Writer where
  write : FileTree → String → String → WriteResult

namespace Writer

/-- The writer that writes to the files themselves. -/
def toFiles (codecs : Codecs) (target : String → FilePath) (encoding : String) : Writer where
  write tree path content :=
    let (result, tree) := writeText codecs tree path (target path) encoding content
    match result with
    | .ok () => ⟨.ok (), tree, [writtenNote (target path) content]⟩
    | .error fault => ⟨.error fault.toFailure, tree, []⟩

/-- The writer that leaves the files alone. It fails where `refusal` says so. -/
def toMemory (refusal : String → Option Failure) : Writer where
  write tree path _ := ⟨(refusal path).elim (.ok ()) .error, tree, []⟩

end Writer

end Amend
