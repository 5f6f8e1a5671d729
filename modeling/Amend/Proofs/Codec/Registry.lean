/-
Which codec a name stands for, and which texts a codec keeps: those that it has bytes for and reads back
from them. The encodings keep all texts that they have.
-/
import Amend.Codec.Registry
import Amend.Proofs.Codec.RoundTrip

namespace Amend

open Codec (Encoding)

namespace Codec

/-- The codec has bytes for the text, and reads it back from them. -/
def Keeps (codec : Codec) (text : String) : Prop :=
  ∃ bytes, codec.encode text = .ok bytes ∧ codec.decode bytes = .ok text

variable {encoding : Encoding} {text : String} {bytes : Bytes}

theorem encode_codec_eq_ok : encoding.codec.encode text = .ok bytes ↔ encoding.encode text = .ok bytes := by
  show (encoding.encode text).mapError SpellFault.unencodable = .ok bytes ↔ _
  rcases encoding.encode text with fault | found <;> simp [Except.mapError]

/-- An encoding keeps the texts that it has. -/
theorem keeps_codec_iff (encoding : Encoding) (text : String) : encoding.codec.Keeps text ↔ encoding.Has text := by
  rw [← encode_ok_iff]
  constructor
  · rintro ⟨bytes, hbytes, -⟩
    exact ⟨bytes, encode_codec_eq_ok.1 hbytes⟩
  · rintro ⟨bytes, hbytes⟩
    exact ⟨bytes, encode_codec_eq_ok.2 hbytes, decode_of_encode hbytes⟩

end Codec

namespace Codecs

variable {codecs : Codecs} {name : String}

theorem find?_encoding {encoding : Encoding} (h : Encoding.ofName? name = some encoding) :
    codecs.find? name = some encoding.codec := by
  unfold find?
  rw [h]

section Encode

variable {codec : Codec} {text : String} {bytes : Codec.Bytes} (hcodec : codecs.find? name = some codec)
  (hbytes : codec.encode text = .ok bytes)
include hcodec hbytes

/-- The codec of a name keeps a text if it reads back the bytes that it makes of it. -/
theorem kept_iff_of_encode :
    (∃ other, codecs.find? name = some other ∧ other.Keeps text) ↔ codec.decode bytes = .ok text := by
  unfold Codec.Keeps
  simp [hcodec, hbytes]

/-- An encoding reads back all that it makes bytes of, so a codec that does not is another one. -/
theorem ofName?_of_misread (hmisread : codec.decode bytes ≠ .ok text) : Encoding.ofName? name = none := by
  rcases hname : Encoding.ofName? name with _ | encoding
  · rfl
  · rw [find?_encoding hname] at hcodec
    cases hcodec
    exact absurd (Codec.decode_of_encode (Codec.encode_codec_eq_ok.1 hbytes)) hmisread

end Encode

end Codecs

end Amend
