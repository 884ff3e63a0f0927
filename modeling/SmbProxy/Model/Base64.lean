import SmbProxy.Library.CInt
import SmbProxy.Library.CString

/-!
# Base64

butil.c:309-524. A `uint32_t` is a natural number; 24 bits of it are used. Both functions
return an `int`.
-/

set_option autoImplicit false

namespace SmbProxy.Model

open SmbProxy.Library

/-- The text or the bytes that a call has stored before the NUL, and what it returns. -/
structure Base64Call where
  out : List UInt8
  result : ℤ

/-! ## Decoding -/

/-- The value of a character, if it is one of either alphabet.
SOURCE: butil.c:325-348 -/
def base64Value (c : UInt8) : Option ℕ :=
  if 65 ≤ c ∧ c ≤ 90 then some (c.toNat - 65)
  else if 97 ≤ c ∧ c ≤ 122 then some (c.toNat - 97 + 26)
  else if 48 ≤ c ∧ c ≤ 57 then some (c.toNat - 48 + 52)
  else if c = 43 ∨ c = 45 then some 62
  else if c = 47 ∨ c = 95 then some 63
  else none

/-- What is stored behind the last full group, and the errors.
SOURCE: butil.c:366-388 -/
def decodeTail (outsize bits outchars errors : ℕ) : List UInt8 × ℕ :=
  if outchars = 1 then ([], errors + 1)
  else if outchars = 2 then
    if outsize < 2 then ([], errors + 1) else ([UInt8.ofNat (bits >>> 10)], errors)
  else if outchars = 3 then
    if outsize < 3 then ([], errors + 1)
    else ([UInt8.ofNat (bits >>> 16), UInt8.ofNat ((bits >>> 8) &&& 0xff)], errors)
  else ([], errors)

/-- The loop over the characters with what follows it.
SOURCE: butil.c:318-388 -/
def decodeLoop (outsize : ℕ) : List UInt8 → ℕ → ℕ → List UInt8 × ℕ
  | [], bits, outchars => decodeTail outsize bits outchars 0
  | c :: src, bits, outchars =>
    if outsize < 4 then decodeTail outsize bits outchars 1
    else
      match base64Value c with
      | none => decodeTail outsize bits outchars 0
      | some v =>
        let bits := bits + v
        if outchars + 1 = 4 then
          let (out, errors) := decodeLoop outsize src 0 0
          (UInt8.ofNat (bits >>> 16) :: UInt8.ofNat ((bits >>> 8) &&& 0xff) ::
            UInt8.ofNat (bits &&& 0xff) :: out, errors)
        else decodeLoop outsize src (bits <<< 6) (outchars + 1)

/-- `butil_base64_decode`.
SOURCE: butil.c:309-390 -/
def butilBase64Decode (outsize : ℕ) (src : List UInt8) : Base64Call :=
  let (out, errors) := decodeLoop outsize src 0 0
  { out := out, result := if errors ≠ 0 then -1 else toInt32 out.length }

/-! ## Encoding -/

/-- `s_alphabet64_base` without its last two characters. -/
def alphabet62 : List UInt8 :=
  ascii ['A', 'B', 'C', 'D', 'E', 'F', 'G', 'H', 'I', 'J', 'K', 'L', 'M', 'N', 'O', 'P', 'Q', 'R', 'S',
    'T', 'U', 'V', 'W', 'X', 'Y', 'Z', 'a', 'b', 'c', 'd', 'e', 'f', 'g', 'h', 'i', 'j', 'k', 'l', 'm',
    'n', 'o', 'p', 'q', 'r', 's', 't', 'u', 'v', 'w', 'x', 'y', 'z', '0', '1', '2', '3', '4', '5', '6',
    '7', '8', '9']

/-- `s_alphabet64_url` and `s_alphabet64_base`.
SOURCE: butil.c:439-450 -/
def alphabet64 (urlencode : Bool) : List UInt8 :=
  alphabet62 ++ if urlencode then ascii ['-', '_'] else ascii ['+', '/']

/-- `base64_hexencode_byte`.
SOURCE: butil.c:392-420 -/
def base64HexencodeByte (byte : UInt8) : List UInt8 :=
  if byte = 43 then ascii ['%', '2', 'B']
  else if byte = 47 then ascii ['%', '2', 'F']
  else if byte = 61 then ascii ['%', '3', 'D']
  else [byte]

/-- The characters for one to three bytes, and what is added to `j`.
SOURCE: butil.c:461-520 -/
def encodeGroup (urlencode hexescape : Bool) (b1 : UInt8) (b2 b3 : Option UInt8) :
    List UInt8 × ℕ :=
  let d := b1.toNat <<< 16 ||| (b2.getD 0).toNat <<< 8 ||| (b3.getD 0).toNat
  let c1 := (alphabet64 urlencode).getD (d >>> 18) 0
  let c2 := (alphabet64 urlencode).getD ((d >>> 12) &&& 0x3f) 0
  let c3 := (alphabet64 urlencode).getD ((d >>> 6) &&& 0x3f) 0
  let c4 := (alphabet64 urlencode).getD (d &&& 0x3f) 0
  if hexescape then
    let text := base64HexencodeByte c1 ++ base64HexencodeByte c2 ++
      (if b2.isSome then base64HexencodeByte c3 else base64HexencodeByte 61) ++
      (if b3.isSome then base64HexencodeByte c4 else base64HexencodeByte 61)
    (text, text.length)
  else
    (c1 :: c2 :: (if b2.isSome then [c3] else if urlencode then [] else [61]) ++
      (if b3.isSome then [c4] else if urlencode then [] else [61]), 4)

/-- The loop over the groups: the text, and whether the source is at its end. `room` is
`outsize - 4`.
SOURCE: butil.c:459-522 -/
def encodeLoop (urlencode hexescape : Bool) (room : ℕ) : ℕ → List UInt8 → List UInt8 × Bool
  | _, [] => ([], true)
  | j, [b1] => if j < room then ((encodeGroup urlencode hexescape b1 none none).1, true) else ([], false)
  | j, [b1, b2] =>
    if j < room then ((encodeGroup urlencode hexescape b1 (some b2) none).1, true) else ([], false)
  | j, b1 :: b2 :: b3 :: src =>
    if j < room then
      let (text, i) := encodeGroup urlencode hexescape b1 (some b2) (some b3)
      let (rest, whole) := encodeLoop urlencode hexescape room (j + i) src
      (text ++ rest, whole)
    else ([], false)

/-- `butil_base64_encode`.
SOURCE: butil.c:422-524 -/
def butilBase64Encode (outsize : ℕ) (src : List UInt8) (urlencode hexescape : Bool) : Base64Call :=
  let room := if 4 ≤ outsize then outsize - 4 else 2 ^ 64 + outsize - 4
  let (out, whole) := encodeLoop urlencode hexescape room 0 src
  { out := out, result := if whole then toInt32 out.length else -1 }

end SmbProxy.Model
