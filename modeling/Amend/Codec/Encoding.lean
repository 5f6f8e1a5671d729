/-
The encodings that are made out here, their names, and what they make of bytes and texts. Files may be in
others, by other codecs.
-/
import Amend.Codec.Utf16
import Amend.Codec.Utf8

namespace Amend.Codec

/-- An encoding of text. -/
inductive Encoding where
  | utf8
  /-- UTF-8 with a mark at its start. -/
  | utf8Marked
  | latin1
  | ascii
  /-- UTF-16 whose mark at the start gives the order of bytes. -/
  | utf16
  | utf16Little
  deriving DecidableEq, Repr

namespace Encoding

/-- All encodings. -/
def all : List Encoding := [.utf8, .utf8Marked, .latin1, .ascii, .utf16, .utf16Little]

/-- The name of an encoding in its plain form. -/
def properName : Encoding → String
  | .utf8 => "utf_8"
  | .utf8Marked => "utf_8_sig"
  | .latin1 => "latin_1"
  | .ascii => "ascii"
  | .utf16 => "utf_16"
  | .utf16Little => "utf_16_le"

/-- The other names of an encoding in their plain form. -/
def otherNames : Encoding → List String
  | .utf8 => ["utf8", "u8", "utf", "utf8_ucs2", "utf8_ucs4", "cp65001"]
  | .utf8Marked => []
  | .latin1 => ["latin1", "latin", "l1", "iso8859_1", "iso_8859_1", "iso8859", "8859", "cp819",
      "csisolatin1", "ibm819", "iso_8859_1_1987", "iso_ir_100"]
  | .ascii => ["us_ascii", "us", "646", "ansi_x3.4_1968", "ansi_x3_4_1968", "ansi_x3.4_1986",
      "cp367", "csascii", "ibm367", "iso646_us", "iso_646.irv_1991", "iso_ir_6"]
  | .utf16 => ["utf16", "u16"]
  | .utf16Little => ["utf_16le", "unicodelittleunmarked"]

/-- A character that names of encodings are made of. -/
def isNameChar (c : Char) : Bool :=
  c.isAlphanum || c = '.'

/-- The words of a name: small letters, any other characters dividing them. -/
def nameWords : List Char → List (List Char)
  | [] => [[]]
  | c :: rest =>
    match nameWords rest with
    | [] => []
    | word :: more =>
      if isNameChar c then (c.toLower :: word) :: more else [] :: word :: more

/-- The plain form of a name: case and the choice of dividing characters do not count. -/
def plainName (name : String) : String :=
  "_".intercalate (((nameWords name.toList).filter (· ≠ [])).map String.ofList)

/-- A plain name with its points as dividing characters. -/
def undotted (name : String) : String :=
  String.ofList (name.toList.map fun c => if c = '.' then '_' else c)

/-- The encoding of a name, if it is one of these. In one of its other names, points may stand for dividing
characters. -/
def ofName? (name : String) : Option Encoding :=
  let plain := plainName name
  all.find? fun encoding =>
    encoding.properName = plain || encoding.otherNames.contains plain
      || encoding.otherNames.contains (undotted plain)

end Encoding

/-- Why bytes could not be read as text. -/
inductive ReadFault where
  | undecodable (fault : DecodeFault)
  /-- The mark that has to give the order of bytes is not there. -/
  | unmarked
  | broken (fault : CodecFault)
  deriving DecidableEq, Repr

/-- The mark at the start of UTF-8. -/
def utf8Mark : Bytes := [0xef, 0xbb, 0xbf]

/-- The bytes without the mark at their start. What could be the beginning of a mark, and is all
there is, counts as one. -/
def dropUtf8Mark (bytes : Bytes) : Bytes :=
  if utf8Mark.isPrefixOf bytes then bytes.drop 3
  else if bytes.isPrefixOf utf8Mark then []
  else bytes

/-- The characters of bytes below a bound; the first byte at or above it is a fault. -/
def decodeNarrow (offset : Nat) : Bytes → Except DecodeFault (List Char)
  | [] => .ok []
  | b :: rest =>
    if b.toNat < 128 then (decodeNarrow (offset + 1) rest).map (Char.ofNat b.toNat :: ·)
    else .error ⟨"ascii", offset, [b], .beyondAscii⟩

/-- The characters of UTF-16 that starts with a mark. -/
def decodeMarked16 (bytes : Bytes) : Except ReadFault (List Char) :=
  let units (order : Utf16.Order) (offset : Nat) (rest : Bytes) :=
    (Utf16.decodeFrom order offset rest).mapError ReadFault.undecodable
  match bytes with
  | 0xff :: 0xfe :: rest => units .little 2 rest
  | 0xfe :: 0xff :: rest => units .big 2 rest
  | bytes => do
    let cs ← units .little 0 bytes
    if cs.isEmpty then return [] else .error .unmarked

/-- The text of some bytes. -/
def Encoding.decode (encoding : Encoding) (bytes : Bytes) : Except ReadFault String :=
  let plain (r : Except DecodeFault (List Char)) : Except ReadFault (List Char) :=
    r.mapError ReadFault.undecodable
  Except.map String.ofList <| match encoding with
    | .utf8 => plain (Utf8.decodeFrom 0 0 bytes)
    | .utf8Marked => plain (Utf8.decodeFrom 0 0 (dropUtf8Mark bytes))
    | .latin1 => .ok (bytes.map fun b => Char.ofNat b.toNat)
    | .ascii => plain (decodeNarrow 0 bytes)
    | .utf16 => decodeMarked16 bytes
    | .utf16Little => plain (Utf16.decodeFrom .little 0 bytes)

/-- The bytes of a text all of whose characters have a number below `bound`. -/
def encodeNarrow (codec : String) (bound : Nat) (s : String) : Except EncodeFault Bytes :=
  let cs := s.toList
  let good := cs.takeWhile (·.toNat < bound)
  match cs.drop good.length with
  | [] => .ok (cs.map fun c => UInt8.ofNat c.toNat)
  | first :: rest =>
    .error ⟨codec, good.length, first, (rest.takeWhile (bound ≤ ·.toNat)).length + 1, bound⟩

/-- The bytes of a text. -/
def Encoding.encode (encoding : Encoding) (s : String) : Except EncodeFault Bytes :=
  match encoding with
  | .utf8 => .ok (Utf8.encode s)
  | .utf8Marked => .ok (utf8Mark ++ Utf8.encode s)
  | .latin1 => encodeNarrow "latin-1" 256 s
  | .ascii => encodeNarrow "ascii" 128 s
  | .utf16 => .ok (Utf16.Order.little.bytes 0xfeff ++ Utf16.encode .little s)
  | .utf16Little => .ok (Utf16.encode .little s)

end Amend.Codec
