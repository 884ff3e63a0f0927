import SmbProxy.Model.Base64

/-!
# What the base64 functions promise

The text of `n` bytes has four characters for every three of them, and for the last one or
two of them with padding or without (`encodedLength`). Both calls return the number of what
they have stored, and the bytes come back (`RoundTrips`). Neither stores behind the end of its
buffer (`DecodesInBounds`, `EncodesInBounds`), and hex escapes stand for the characters that
are there without them (`EscapesOnly`).
-/

set_option autoImplicit false

namespace SmbProxy.Interface

open SmbProxy.Library SmbProxy.Model

/-- The length of the text of `n` bytes. -/
def encodedLength (urlencode : Bool) (n : ℕ) : ℕ :=
  if urlencode then (4 * n + 2) / 3 else 4 * ((n + 2) / 3)

/-- Encoding into `outsize` bytes and decoding into `outsize'` bytes gives the source back. -/
structure RoundTrips (urlencode : Bool) (outsize outsize' : ℕ) (src : List UInt8) : Prop where
  encoded : (butilBase64Encode outsize src urlencode false).result =
    (butilBase64Encode outsize src urlencode false).out.length
  decoded : (butilBase64Decode outsize' (butilBase64Encode outsize src urlencode false).out).result =
    src.length
  bytes : (butilBase64Decode outsize' (butilBase64Encode outsize src urlencode false).out).out = src

/-! ## Bounds -/

/-- The number of bytes that a text stands for: three for every four characters of an
alphabet, up to the first character that is of neither. -/
def decodedLength (src : List UInt8) : ℕ :=
  3 * (src.takeWhile fun c => (base64Value c).isSome).length / 4

/-- What is stored fits with its NUL, and what does not fit is refused. -/
structure DecodesInBounds (outsize : ℕ) (src : List UInt8) : Prop where
  stored : (butilBase64Decode outsize src).out.length + 1 ≤ outsize
  refused : outsize < decodedLength src + 1 → (butilBase64Decode outsize src).result = -1

/-- The characters for the bytes of a source, three after three. -/
def groups (urlencode hexescape : Bool) : List UInt8 → List (List UInt8)
  | [] => []
  | [b1] => [(encodeGroup urlencode hexescape b1 none none).1]
  | [b1, b2] => [(encodeGroup urlencode hexescape b1 (some b2) none).1]
  | b1 :: b2 :: b3 :: src =>
    (encodeGroup urlencode hexescape b1 (some b2) (some b3)).1 :: groups urlencode hexescape src

/-- The complete encoding. -/
def encoding (urlencode hexescape : Bool) (src : List UInt8) : List UInt8 :=
  (groups urlencode hexescape src).flatten

/-- What is stored fits with its NUL, and what does not fit is refused. -/
structure EncodesInBounds (urlencode hexescape : Bool) (outsize : ℕ) (src : List UInt8) : Prop where
  stored : (butilBase64Encode outsize src urlencode hexescape).out.length + 1 ≤ outsize
  refused : outsize < (encoding urlencode hexescape src).length + 1 →
    (butilBase64Encode outsize src urlencode hexescape).result = -1

/-- From `j` on, one of the groups begins with more than four bytes of the buffer left and
leaves none for the NUL. -/
def Overruns (outsize j : ℕ) (gs : List (List UInt8)) : Prop :=
  ∃ before g after, gs = before ++ g :: after ∧ j + before.flatten.length + 4 < outsize ∧
    outsize ≤ j + before.flatten.length + g.length

/-! ## Escapes -/

/-- `%2B`, `%2F` and `%3D` are replaced by the characters they stand for. -/
def unescape : List UInt8 → List UInt8
  | c :: d :: e :: text =>
    if [c, d, e] = ascii ['%', '2', 'B'] then 43 :: unescape text
    else if [c, d, e] = ascii ['%', '2', 'F'] then 47 :: unescape text
    else if [c, d, e] = ascii ['%', '3', 'D'] then 61 :: unescape text
    else c :: unescape (d :: e :: text)
  | text => text

/-- Without its escapes, the escaped text is the other one, and the source comes back. -/
structure EscapesOnly (urlencode : Bool) (outsize outsize' : ℕ) (src : List UInt8) : Prop where
  text : unescape (butilBase64Encode outsize src urlencode true).out =
    (butilBase64Encode outsize src urlencode false).out
  bytes : (butilBase64Decode outsize'
    (unescape (butilBase64Encode outsize src urlencode true).out)).out = src

end SmbProxy.Interface
