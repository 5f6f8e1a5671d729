/-
Codecs by name. The encodings that are made out here are always there; which other codecs there are,
and what these make of bytes and texts, is not fixed.
-/
import Amend.Codec.Encoding

namespace Amend

open Codec (Bytes CodecFault EncodeFault Encoding ReadFault)

/-- Why a text could not be put into bytes. -/
inductive Codec.SpellFault where
  | unencodable (fault : EncodeFault)
  | broken (fault : CodecFault)
  deriving DecidableEq, Repr

/-- A codec, as files see it: what it makes of all bytes of a file, and the bytes that a file holds
once a text was written to it. Texts have no halves of pairs as characters. -/
structure Codec where
  decode : Bytes → Except ReadFault String
  encode : String → Except Codec.SpellFault Bytes

/-- An encoding as a codec. -/
def Codec.Encoding.codec (encoding : Encoding) : Codec where
  decode := encoding.decode
  encode text := (encoding.encode text).mapError .unencodable

/-- The codecs that there are beside the encodings, by the names they are asked for under. -/
structure Codecs where
  other? : String → Option Codec

namespace Codecs

/-- No codecs but the encodings. -/
def plain : Codecs :=
  ⟨fun _ => none⟩

/-- The codec of a name. The names of encodings stand for these whatever else there is. -/
def find? (codecs : Codecs) (name : String) : Option Codec :=
  match Encoding.ofName? name with
  | some encoding => some encoding.codec
  | none => codecs.other? name

end Codecs

end Amend
