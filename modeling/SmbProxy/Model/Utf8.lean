import Mathlib.Data.List.Basic
import Mathlib.Data.UInt

/-!
# UTF-8

butil.c:195-307. A `uint32_t` is a natural number; nothing is shifted out of it.
-/

set_option autoImplicit false

namespace SmbProxy.Model

/-- `butil_utf8_encode`: the bytes it stores before the NUL. It returns their number.
SOURCE: butil.c:195-225 -/
def butilUtf8Encode (unicode : ℕ) : List UInt8 :=
  if unicode < 0x80 then [UInt8.ofNat (unicode &&& 0xFF)]
  else if unicode < 0x800 then
    [UInt8.ofNat (0xC0 ||| unicode >>> 6),
     UInt8.ofNat (0x80 ||| unicode &&& 0x3F)]
  else if unicode < 0x10000 then
    [UInt8.ofNat (0xE0 ||| unicode >>> 12),
     UInt8.ofNat (0x80 ||| (unicode >>> 6) &&& 0x3F),
     UInt8.ofNat (0x80 ||| unicode &&& 0x3F)]
  else if unicode < 0x200000 then
    [UInt8.ofNat (0xF0 ||| unicode >>> 18),
     UInt8.ofNat (0x80 ||| (unicode >>> 12) &&& 0x3F),
     UInt8.ofNat (0x80 ||| (unicode >>> 6) &&& 0x3F),
     UInt8.ofNat (0x80 ||| unicode &&& 0x3F)]
  else []

/-- What `butil_utf8_decode` returns, what it stores in `*unicode`, and how many bytes from
the first on it has read. -/
structure DecodedUtf8 where
  result : ℕ
  unicode : Option ℕ
  read : ℕ
  deriving DecidableEq

/-- `n--` of a `size_t`. -/
def decrement (n : ℕ) : ℕ := if n = 0 then 2 ^ 64 - 1 else n - 1

/-- The continuation bytes, each with its shift: `b` so far, the next index `i`, the bytes
`nutf` that are left, and what is returned when there are none.
SOURCE: butil.c:240-299 -/
def continueUtf8 (utfbuf : ℕ → UInt8) (dangling : ℕ) :
    List ℕ → ℕ → ℕ → ℕ → DecodedUtf8
  | [], b, i, _ => { result := i, unicode := some b, read := i }
  | shift :: shifts, b, i, nutf =>
    if nutf < 1 then { result := dangling, unicode := none, read := i }
    else
      continueUtf8 utfbuf dangling shifts (b ||| ((utfbuf i).toNat &&& 0x3f) <<< shift) (i + 1)
        (decrement nutf)

/-- `butil_utf8_decode`. Behind a lead byte of two, a missing byte is answered with `-1` as a
`size_t`, elsewhere with 0.
SOURCE: butil.c:227-307 -/
def butilUtf8Decode (utfbuf : ℕ → UInt8) (nutf : ℕ) : DecodedUtf8 :=
  let b := (utfbuf 0).toNat
  let nutf := decrement nutf
  if b &&& 0x80 ≠ 0 then
    if b &&& 0x20 ≠ 0 then
      if b &&& 0x10 ≠ 0 then continueUtf8 utfbuf 0 [12, 6, 0] ((b &&& 0x7) <<< 18) 1 nutf
      else continueUtf8 utfbuf 0 [6, 0] ((b &&& 0xf) <<< 12) 1 nutf
    else continueUtf8 utfbuf (2 ^ 64 - 1) [0] ((b &&& 0x1f) <<< 6) 1 nutf
  else { result := 1, unicode := some b, read := 1 }

end SmbProxy.Model
