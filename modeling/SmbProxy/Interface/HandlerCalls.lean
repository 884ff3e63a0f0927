import SmbProxy.Interface.Smb2Compound

/-!
# What the handlers of `smbproto` are promised

An SMB2 handler gets its own element: the command and the payload of the header it is
called for (`OwnElement`). An SMB1 handler of an AndX command gets the words of the block
behind the AndX header (`OwnBlock`), and a session setup that cannot be decoded has the
packet rejected (`RejectsFailures`).
-/

set_option autoImplicit false

namespace SmbProxy.Interface

open SmbProxy.Library SmbProxy.Model

/-! ## SMB2 -/

/-- Where the element at `o` ends: at the next one, or at the end of the packet. -/
def elementEnd (p : Packet) (o : ℤ) : ℤ :=
  if nextCommandAt p o = 0 then p.bytes else o + nextCommandAt p o

/-- A call hands over the 16-bit command and the payload of its element. -/
structure OwnElement (p : Packet) (c : V2Call) : Prop where
  command : c.command.toNat = (p.smb2Header c.element).command
  start : c.data = c.element + 64
  stop : c.data + c.dataBytes = elementEnd p c.element
  nonneg : 0 ≤ c.dataBytes
  inside : c.data + c.dataBytes ≤ p.bytes

/-- Every element that is visited with its header inside the packet is handed over. -/
def HandsOverElements (p : Packet) : Prop :=
  ∀ fuel, ∀ c ∈ v2Calls (smbprotoV2Packet p fuel).events, c.element + 64 ≤ p.bytes → OwnElement p c

/-! ## SMB1 -/

/-- The handler calls in a trace of the AndX loop. -/
def v1Calls (events : List V1Event) : List V1Call :=
  events.filterMap fun
    | .call c => some c
    | .read _ _ => none

/-- The calls of the SMB1 handler in a trace of `smbproto_packet`. -/
def smb1Calls (events : List SmbEvent) : List V1Call :=
  events.filterMap fun
    | .v1 (.call c) => some c
    | _ => none

/-- An SMB1 packet whose first command is an AndX command with a complete block of at least
two words. -/
structure AndxFirst (p : Packet) : Prop where
  magic : window p.mem 0 4 = smb1Magic
  andx : smbprotoIsAndxCommand (p.mem 4) = true
  words : 2 ≤ (p.mem 32).toNat
  complete : 33 + 2 * (p.mem 32).toNat ≤ p.bytes

/-- The call that every walk through the packet begins with. -/
def FirstCall (p : Packet) (isclient : Bool) (c : V1Call) : Prop :=
  ∀ fuel, (v1Calls (smbprotoV1Packet p isclient (fuel + 1)).events).head? = some c

/-- The extended parameters of a session setup, read from `o` on. -/
def extendedAt (p : Packet) (o : ℤ) : SetupParams :=
  .ext (le16 p.mem o) (le16 p.mem (o + 2)) (le16 p.mem (o + 4)) (le32 p.mem (o + 6))
    (le16 p.mem (o + 10)) (le32 p.mem (o + 12)) (le32 p.mem (o + 16))

/-- The parameters without the extension. -/
def nonextendedAt (p : Packet) (o : ℤ) : SetupParams :=
  .nonext (le16 p.mem o) (le16 p.mem (o + 2)) (le16 p.mem (o + 4)) (le32 p.mem (o + 6))
    (le16 p.mem (o + 10)) (le16 p.mem (o + 12)) (le32 p.mem (o + 14)) (le32 p.mem (o + 18))

/-- The first call hands over what follows the AndX header in the block, and a client's
session setup of twelve or thirteen words is decoded with its own layout. -/
structure OwnBlock (p : Packet) (isclient : Bool) (c : V1Call) : Prop where
  params : c.params = .packet 37
  paramBytes : c.paramBytes = 2 * (p.mem 32).toNat - 4
  extended : isclient = true → p.mem 4 = smbComSessionSetupAndx → (p.mem 32).toNat = 12 →
    smbprotoSessionSetupRequest p c.params c.paramBytes = (some (extendedAt p 37), 0)
  nonextended : isclient = true → p.mem 4 = smbComSessionSetupAndx → (p.mem 32).toNat = 13 →
    smbprotoSessionSetupRequest p c.params c.paramBytes = (some (nonextendedAt p 37), 0)

/-- A call whose handling fails: a client's session setup with a block of no known length. -/
def Fails (p : Packet) (isclient : Bool) (c : V1Call) : Prop :=
  isclient = true ∧ c.command = smbComSessionSetupAndx ∧
    (smbprotoSessionSetupRequest p c.params c.paramBytes).2 ≠ 0

/-- A packet with a call that fails is answered with an error, and a packet is accepted only
when no call has failed. -/
structure RejectsFailures (p : Packet) (isclient : Bool) : Prop where
  rejects : (∃ fuel, ∃ c ∈ smb1Calls (smbprotoPacket p isclient fuel).events, Fails p isclient c) →
    ∃ fuel result, (smbprotoPacket p isclient fuel).result = some result ∧ result ≠ 0
  accepts : ∀ fuel, (smbprotoPacket p isclient fuel).result = some 0 →
    ∀ c ∈ smb1Calls (smbprotoPacket p isclient fuel).events, ¬ Fails p isclient c

end SmbProxy.Interface
