/-
Reading source files. A loader reads each file once and hands out the same document ever after, so
that all offsets refer to one text. Loading takes three steps: look the name up, read the file, and
keep the document unless another one was kept meanwhile.
-/
import Amend.Codec.Registry
import Amend.Failure
import Amend.Files.Tree
import Amend.Span

namespace Amend

open Codec (CodecFault DecodeFault)

/-- Why a document could not be loaded. -/
inductive LoadFault where
  | file (fault : FileFault)
  | undecodable (path encoding : String) (fault : DecodeFault)
  | unknownEncoding (name : String)
  /-- The name of the encoding has a zero character. -/
  | zeroInEncoding
  | unmarked
  /-- The codec failed in a way of its own, which is none of the system's. -/
  | broken (fault : CodecFault)
  deriving DecidableEq, Repr

namespace LoadFault

/-- The fault in words. -/
def message : LoadFault → String
  | .file fault => fault.message
  | .undecodable path encoding fault => s!"{path} is not valid {encoding}: {fault.message}"
  | .unknownEncoding name => s!"unknown encoding: {name}"
  | .zeroInEncoding => "embedded null character"
  | .unmarked => "UTF-16 stream does not start with BOM"
  | .broken fault => fault.message

/-- Is it the file that cannot be read, as opposed to a name or an encoding that make no sense? -/
def isUnreadable : LoadFault → Bool
  | .file (.named ..) => true
  | .undecodable .. => true
  | _ => false

/-- The fault as a failure of the loader. -/
def toFailure (fault : LoadFault) : Failure :=
  match fault with
  | .broken fault => .broken fault.kind fault.message
  | fault => .broken "load fault" fault.message

end LoadFault

/-- Documents by the names they were asked for under. -/
structure Loader where
  root : Option FilePath
  encoding : String
  cache : Table String Document
  /-- Each document is kept under its own name. -/
  named : ∀ path document, cache.get? path = some document → document.path = path
  codecs : Codecs

namespace Loader

/-- A loader that has read nothing, and knows no codecs but the encodings. -/
def new (root : Option FilePath) (encoding : String) : Loader :=
  ⟨root, encoding, [], fun _ _ h => by simp at h, Codecs.plain⟩

/-- The loader with other codecs. -/
def withCodecs (loader : Loader) (codecs : Codecs) : Loader :=
  { loader with codecs := codecs }

/-- The file of a name: relative names start at the root. -/
def resolve (loader : Loader) (path : String) : FilePath :=
  let p := FilePath.ofString path
  match loader.root with
  | some root => root.join p
  | none => p

/-- The first step: the document that was kept. -/
def kept? (loader : Loader) (path : String) : Option Document :=
  loader.cache.get? path

/-- The second step: the document as it is in the files now. -/
def fetch (loader : Loader) (tree : FileTree) (path : String) : Except LoadFault Document :=
  if loader.encoding.toList.contains '\x00' then .error .zeroInEncoding
  else match tree.read (loader.resolve path) with
    | .error fault => .error (.file fault)
    | .ok bytes =>
      match loader.codecs.find? loader.encoding with
      | none => .error (.unknownEncoding loader.encoding)
      | some codec =>
        match codec.decode bytes with
        | .ok text => .ok ⟨path, text⟩
        | .error (.undecodable fault) => .error (.undecodable path loader.encoding fault)
        | .error .unmarked => .error .unmarked
        | .error (.broken fault) => .error (.broken fault)

/-- Puts a document in, in place of any other. -/
def preload (loader : Loader) (document : Document) : Loader where
  root := loader.root
  encoding := loader.encoding
  cache := loader.cache.put document.path document
  named path other h := by
    rw [Table.get?_put] at h
    split at h
    · cases h; assumption
    · exact loader.named path other h
  codecs := loader.codecs

/-- The third step: keeps a document, unless one was kept before, and hands out the kept one. -/
def keep (loader : Loader) (document : Document) : Document × Loader :=
  match loader.kept? document.path with
  | some earlier => (earlier, loader)
  | none => (document, loader.preload document)

/-- Loads a document. A load that fails keeps nothing. -/
def load (loader : Loader) (tree : FileTree) (path : String) : Except LoadFault Document × Loader :=
  match loader.kept? path with
  | some document => (.ok document, loader)
  | none =>
    match loader.fetch tree path with
    | .error fault => (.error fault, loader)
    | .ok document =>
      let (document, loader) := loader.keep document
      (.ok document, loader)

end Loader

end Amend
