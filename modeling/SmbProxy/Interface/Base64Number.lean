import SmbProxy.Interface.Base64
import SmbProxy.Library.Radix

/-!
# What a base64 text means

The characters of a text are the digits of a number in base 64, and its bytes are the digits of
the same number in base 256: where the characters have more bits than the bytes, these are cut
off (`Decodes`), and where they have fewer they are filled up with zeros (`Encodes`). Both calls
return a number of bytes as an `int`, so it is that number below 2^31.
-/

set_option autoImplicit false

namespace SmbProxy.Interface

open SmbProxy.Library SmbProxy.Model

/-- The digits of a text, up to the first character that is of neither alphabet. -/
def sextets : List UInt8 → List ℕ
  | [] => []
  | c :: src =>
    match base64Value c with
    | none => []
    | some v => v :: sextets src

/-- Bytes as digits. -/
def octets (bytes : List UInt8) : List ℕ := bytes.map UInt8.toNat

/-- The bytes are those of the number that the text stands for. One character alone is not
enough for a byte. The number of bytes comes back as an `int`. -/
structure Decodes (outsize : ℕ) (src : List UInt8) : Prop where
  length : (butilBase64Decode outsize src).out.length = 6 * (sextets src).length / 8
  number : bigEndian 256 (octets (butilBase64Decode outsize src).out) =
    bigEndian 64 (sextets src) / 2 ^ (6 * (sextets src).length % 8)
  result : (butilBase64Decode outsize src).result =
    if (sextets src).length % 4 = 1 then -1
    else toInt32 (butilBase64Decode outsize src).out.length
  small : (butilBase64Decode outsize src).out.length < 2 ^ 31 →
    (butilBase64Decode outsize src).result =
      if (sextets src).length % 4 = 1 then -1 else ((butilBase64Decode outsize src).out.length : ℤ)

/-- The text is as many characters of the alphabet as the bits of the source fill, which stand for
the number of its bytes, and the padding. -/
structure Encodes (urlencode : Bool) (outsize : ℕ) (src : List UInt8) (values : List ℕ) : Prop where
  length : values.length = (8 * src.length + 5) / 6
  digits : ∀ v ∈ values, v < 64
  number : bigEndian 64 values =
    bigEndian 256 (octets src) * 2 ^ (6 * values.length - 8 * src.length)
  text : (butilBase64Encode outsize src urlencode false).out =
    values.map (fun v => (alphabet64 urlencode).getD v 0) ++
      if urlencode then [] else List.replicate (4 * ((src.length + 2) / 3) - values.length) 61
  result : (butilBase64Encode outsize src urlencode false).result =
    toInt32 (butilBase64Encode outsize src urlencode false).out.length

end SmbProxy.Interface
