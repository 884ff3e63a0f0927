import SmbProxy.Model.Utf8

/-!
# What the UTF-8 functions promise

A text is encoded code point by code point; a caller decodes it by calls that each begin
where the last one has ended (`decodeCalls`).
-/

set_option autoImplicit false

namespace SmbProxy.Interface

open SmbProxy.Model

def encodeText (text : List ℕ) : List UInt8 := text.flatMap butilUtf8Encode

/-- The bytes are at the beginning of the buffer. -/
def Begins (buffer : ℕ → UInt8) (bytes : List UInt8) : Prop :=
  ∀ i (h : i < bytes.length), buffer i = bytes.get ⟨i, h⟩

/-- The calls on the rest of the buffer, up to one that does not advance in it. -/
def decodeCalls (utfbuf : ℕ → UInt8) (nutf : ℕ) : List DecodedUtf8 :=
  if nutf = 0 then []
  else if 0 < (butilUtf8Decode utfbuf nutf).result ∧ (butilUtf8Decode utfbuf nutf).result ≤ nutf then
    butilUtf8Decode utfbuf nutf ::
      decodeCalls (fun i => utfbuf ((butilUtf8Decode utfbuf nutf).result + i))
        (nutf - (butilUtf8Decode utfbuf nutf).result)
  else [butilUtf8Decode utfbuf nutf]
termination_by nutf
decreasing_by omega

/-- The call that decodes what one code point was encoded to, and reads no more. -/
def wholeCall (unicode : ℕ) : DecodedUtf8 where
  result := (butilUtf8Encode unicode).length
  unicode := some unicode
  read := (butilUtf8Encode unicode).length

end SmbProxy.Interface
