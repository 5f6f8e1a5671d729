/-
Reading a configuration from its file and writing one. A file that is not there stands for the
default; one that is there has to hold a mapping of the right shape, or nothing.
-/
import Amend.Codec.TextStream
import Amend.Config.Check
import Amend.Yaml.Printer

namespace Amend

open Codec (Bytes DecodeFault)

/-- Why a configuration could not be read. -/
inductive ConfigFault where
  /-- The text of the file does not follow the format. -/
  | malformed (path : FilePath)
  /-- The file holds something else than a mapping. -/
  | notMapping (path : FilePath)
  /-- The mapping is not of the right shape. -/
  | invalid (path : FilePath) (issues : List Shape.Issue)
  /-- The file could not be opened. -/
  | file (fault : FileFault)
  /-- The file is no text. -/
  | undecodable (fault : DecodeFault)
  /-- The text holds a value that cannot be. -/
  | impossible (message : String)
  /-- The text holds a number that is too large to be looked at. -/
  | tooLarge (message : String)
  deriving DecidableEq, Repr

namespace ConfigFault

/-- The fault in words. -/
def message : ConfigFault → String
  | .malformed path => s!"Failed to parse config {path.text}"
  | .notMapping path => s!"Configuration in {path.text} must be a mapping at the top level."
  | .invalid path issues =>
    s!"Invalid configuration in {path.text}: {Shape.headline issues Config.subject}"
  | .file fault => fault.message
  | .undecodable fault => fault.message
  | .impossible message => message
  | .tooLarge message => message

/-- Is it a fault of what the configuration says, as opposed to one of its file or its values? -/
def isConfigError : ConfigFault → Bool
  | .malformed _ => true
  | .notMapping _ => true
  | .invalid .. => true
  | _ => false

/-- The issues with the shape. -/
def issues : ConfigFault → List Shape.Issue
  | .invalid _ issues => issues
  | _ => []

end ConfigFault

namespace Config

/-- The text of a configuration file, as far as it can be read. -/
def source (bytes : Bytes) : Yaml.Source :=
  let (portions, fault) := Codec.TextStream.portions bytes
  .ofPortions portions (fault.map .undecodable)

/-- Does a document count as nothing? -/
def isVoid : Tree → Bool
  | .null => true
  | .bool b => !b
  | .int n => n = 0
  | .float x => x.toInt? = some 0
  | .text s => s.isEmpty
  | .list items => items.isEmpty
  | .tuple items => items.isEmpty
  | .set items => items.isEmpty
  | .map entries => entries.isEmpty
  | _ => false

/-- The configuration that a document at a path spells out. -/
def ofDocument (path : FilePath) (document : Tree) : Except ConfigFault Config :=
  match if isVoid document then .map [] else document with
  | .map entries => (check (.map entries)).toExcept.mapError (.invalid path)
  | _ => .error (.notMapping path)

/-- What a fault of a text from a path is called. -/
def faultAt (path : FilePath) : Yaml.Fault → ConfigFault
  | .malformed => .malformed path
  | .cutOff => .malformed path
  | .undecodable fault => .undecodable fault
  | .impossible message => .impossible message
  | .tooLarge message => .tooLarge message

/-- The configuration in the bytes of a file. -/
def ofBytes (path : FilePath) (bytes : Bytes) : Except ConfigFault Config := do
  let document ← (Yaml.read (source bytes)).mapError (faultAt path)
  ofDocument path document

/-- Reads a configuration from its file, or gives the default if it is not there or none is
named. -/
def load (tree : FileTree) : Option FilePath → Except ConfigFault Config
  | none => .ok default
  | some path => do
    if !(← (tree.exists? path).mapError .file) then return default
    let bytes ← (tree.read path).mapError .file
    let config ← ofBytes path bytes
    return { config with path := some (path.resolve tree.cwd) }

/-- The data that are written for given ones: data that count as nothing stand for the default. -/
def payload (data : Tree) : Tree :=
  if isVoid data then default.toTree else data

/-- Writes data to a file, in folders that are made if need be. -/
def write (tree : FileTree) (path : FilePath) (data : Tree) : Except FileFault Unit × FileTree :=
  match tree.ensureFolder path.parent with
  | .error fault => (.error fault, tree)
  | .ok tree =>
    match tree.write path (Codec.Utf8.encode (Yaml.print (payload data))) with
    | .error fault => (.error fault, tree)
    | .ok tree => (.ok (), tree)

end Config

end Amend
