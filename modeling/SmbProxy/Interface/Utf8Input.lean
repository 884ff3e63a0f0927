import SmbProxy.Interface.Utf8
import SmbProxy.Library.Machine

/-!
# What the decoder may do with any bytes

The decoder is given bytes that no encoder has made. It is not to leave its buffer
(`ClaimsInside`), nor is a caller that advances by what it returns (`callerStep`), and what
it takes for a character can be compared with what the character is encoded to
(`WellFormedSequence`).
-/

set_option autoImplicit false

namespace SmbProxy.Interface

open SmbProxy.Model

/-- The first `n` bytes of the buffer. -/
def firstBytes (utfbuf : ℕ → UInt8) (n : ℕ) : List UInt8 := (List.range n).map utfbuf

/-- How many bytes a sequence has, by the bits of its first byte that tell the lengths apart. -/
def sequenceLength (lead : ℕ) : ℕ :=
  if lead &&& 0x80 = 0 then 1
  else if lead &&& 0x20 = 0 then 2
  else if lead &&& 0x10 = 0 then 3
  else 4

/-- The call reads the bytes it is given and no others, claims no more of them, and nothing of
a sequence that they cut off. -/
structure ClaimsInside (utfbuf : ℕ → UInt8) (nutf : ℕ) : Prop where
  reads : (butilUtf8Decode utfbuf nutf).read ≤ nutf
  count : (butilUtf8Decode utfbuf nutf).result ≤ nutf
  cutOff : nutf < sequenceLength (utfbuf 0).toNat → (butilUtf8Decode utfbuf nutf).result = 0

/-- One byte is left, and it leads a sequence of two. -/
def DanglingTwo (utfbuf : ℕ → UInt8) (nutf : ℕ) : Prop :=
  nutf = 1 ∧ sequenceLength (utfbuf 0).toNat = 2

/-- A caller that advances by the result as long as it has bytes left. -/
def callerStep (utfbuf : ℕ → UInt8) (nutf pos : ℕ) (_call : Unit) : ℕ :=
  if pos < nutf then pos + (butilUtf8Decode (fun i => utfbuf (pos + i)) (nutf - pos)).result
  else pos

/-- The bytes at which the caller calls do not begin with a lone lead byte of two. -/
def NoDanglingTwo (utfbuf : ℕ → UInt8) (nutf pos : ℕ) (_call : Unit) : Prop :=
  pos < nutf → ¬ DanglingTwo (fun i => utfbuf (pos + i)) (nutf - pos)

/-- The call claims `n` of the bytes, for the code point `c`. -/
structure Accepts (utfbuf : ℕ → UInt8) (nutf n c : ℕ) : Prop where
  result : (butilUtf8Decode utfbuf nutf).result = n
  unicode : (butilUtf8Decode utfbuf nutf).unicode = some c
  pos : 1 ≤ n
  inside : n ≤ nutf

/-- A byte behind the first one of a sequence. -/
def Continuation (b : UInt8) : Prop := 0x80 ≤ b.toNat ∧ b.toNat < 0xC0

/-- A lead byte with as many continuation bytes as it asks for, and with no fewer bytes that
could hold the same code point. -/
def WellFormedSequence : List UInt8 → Prop
  | [b] => b.toNat < 0x80
  | [b, c] => 0xC2 ≤ b.toNat ∧ b.toNat < 0xE0 ∧ Continuation c
  | [b, c, d] =>
    0xE0 ≤ b.toNat ∧ b.toNat < 0xF0 ∧ (b.toNat = 0xE0 → 0xA0 ≤ c.toNat) ∧
      Continuation c ∧ Continuation d
  | [b, c, d, e] =>
    0xF0 ≤ b.toNat ∧ b.toNat < 0xF8 ∧ (b.toNat = 0xF0 → 0x90 ≤ c.toNat) ∧
      Continuation c ∧ Continuation d ∧ Continuation e
  | _ => False

end SmbProxy.Interface
