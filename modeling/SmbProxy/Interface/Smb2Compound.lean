import SmbProxy.Model.Smb

/-!
# Compound SMB2 messages

A compound message is a chain of elements. An element starts with a 64-byte header, whose
NextCommand field counts from the start of this header to the start of the next one and
is 0 in the last. The chain is read off the memory at the packet: whether it stays inside
the packet is a property of it.
-/

set_option autoImplicit false

namespace SmbProxy.Interface

open SmbProxy.Library SmbProxy.Model

/-- The header at `o` starts with `FE 'S' 'M' 'B'`. -/
def HasMagic (p : Packet) (o : ℤ) : Prop := window p.mem o 4 = smb2Magic

instance (p : Packet) (o : ℤ) : Decidable (HasMagic p o) :=
  inferInstanceAs (Decidable (_ = _))

/-- A 64-byte SMB2 header with the given low byte of NextCommand and zeros elsewhere. -/
def smb2HeaderBytes (nextCommand : UInt8) : List UInt8 :=
  smb2Magic ++ List.replicate 16 0 ++ nextCommand :: List.replicate 43 0

/-- The NextCommand field of the header at `o`. -/
def nextCommandAt (p : Packet) (o : ℤ) : ℕ := le32 p.mem (o + 20)

/-- `o` is the offset of an element, found by adding the NextCommand of each element from
the first on, until one is 0 or a header lacks the magic. -/
inductive V2Element (p : Packet) : ℤ → Prop
  | first : V2Element p 0
  | next {o : ℤ} : V2Element p o → HasMagic p o → nextCommandAt p o ≠ 0 →
      V2Element p (o + nextCommandAt p o)

/-- `Compound p o os`: the elements from the one at `o` to the end of the chain are those
at `os`. The last of them is the first with NextCommand 0 or without the magic. -/
inductive Compound (p : Packet) : ℤ → List ℤ → Prop
  | last {o : ℤ} : HasMagic p o → nextCommandAt p o = 0 → Compound p o [o]
  | noMagic {o : ℤ} : ¬ HasMagic p o → Compound p o [o]
  | next {o : ℤ} {os : List ℤ} : HasMagic p o → nextCommandAt p o ≠ 0 →
      Compound p (o + nextCommandAt p o) os → Compound p o (o :: os)

/-- The handler calls in a trace of the compound loop. -/
def v2Calls (events : List V2Event) : List V2Call :=
  events.filterMap fun
    | .call c => some c
    | .read _ _ => none

/-- The calls of the SMB2 handler in a trace of `smbproto_packet`. -/
def smb2Calls (events : List SmbEvent) : List V2Call :=
  events.filterMap fun
    | .v2 (.call c) => some c
    | _ => none

/-- What a step of the walk copies lies inside the packet. -/
def V2Inside (p : Packet) : V2Event → Prop
  | .read o n => 0 ≤ o ∧ o + n ≤ p.bytes
  | .call _ => True

/-- Two packets of one length whose memories agree up to that length. -/
def Agree (p q : Packet) : Prop :=
  q.bytes = p.bytes ∧ ∀ i, 0 ≤ i → i < p.bytes → q.mem i = p.mem i

/-- `smbproto_packet` returns the same and calls the handler for the same elements with
the same commands. -/
def SameVerdict (isclient : Bool) (q q' : Packet) : Prop :=
  ∀ fuel, (smbprotoPacket q isclient fuel).result = (smbprotoPacket q' isclient fuel).result ∧
    (smb2Calls (smbprotoPacket q isclient fuel).events).map (fun c => (c.element, c.command)) =
      (smb2Calls (smbprotoPacket q' isclient fuel).events).map (fun c => (c.element, c.command))

/-- The header at `o` is inside the packet up to NextCommand, or one of the packet's own
bytes shows that it lacks the magic. -/
def HeaderContained (p : Packet) (o : ℤ) : Prop :=
  o + 24 ≤ p.bytes ∨
    ∃ (i : ℕ) (h : i < smb2Magic.length), o + i < p.bytes ∧ p.mem (o + i) ≠ smb2Magic[i]

/-- The packet is too short for a header, or decides the walk through its elements by
itself. -/
def Contained (p : Packet) : Prop :=
  p.bytes < 64 ∨ ∀ o, V2Element p o → HeaderContained p o

end SmbProxy.Interface
