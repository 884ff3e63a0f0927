import SmbProxy.Model.Smb

/-!
# Well-formed SMB1 messages

The wire format of an AndX chain, with no reference to how it is walked. Behind the
32-byte header stand blocks. A block starts with its own WordCount byte; the words of an
AndX block start with AndXCommand, a reserved byte and AndXOffset, sixteen bits with the
low byte first that count from the start of the header to the next block's WordCount byte.
-/

set_option autoImplicit false

namespace SmbProxy.Interface

open SmbProxy.Library SmbProxy.Model

/-- `WireChain p c b cs`: the block at `b` belongs to command `c`, and the commands from
there to the end of the chain are `cs`. -/
inductive WireChain (p : Packet) : UInt8 → ℤ → List UInt8 → Prop
  /-- A command that is not AndX ends the chain. -/
  | plain {c : UInt8} {b : ℤ} : smbprotoIsAndxCommand c = false → b < p.bytes →
      WireChain p c b [c]
  /-- AndXCommand `0xFF` ends the chain. -/
  | last {c : UInt8} {b : ℤ} : smbprotoIsAndxCommand c = true → 2 ≤ (p.mem b).toNat →
      b + 5 ≤ p.bytes → p.mem (b + 1) = 0xFF → WireChain p c b [c]
  /-- The offset leads forward to the next block. -/
  | next {c : UInt8} {b : ℤ} {cs : List UInt8} : smbprotoIsAndxCommand c = true →
      2 ≤ (p.mem b).toNat → b + 5 ≤ p.bytes → p.mem (b + 1) ≠ 0xFF →
      b < le16 p.mem (b + 3) → le16 p.mem (b + 3) < p.bytes →
      WireChain p (p.mem (b + 1)) (le16 p.mem (b + 3)) cs → WireChain p c b (c :: cs)

/-- A packet that is a well-formed SMB1 message, with the commands of its chain. -/
structure AndxMessage extends Packet where
  commands : List UInt8
  magic : window mem 0 4 = smb1Magic
  chain : WireChain toPacket (mem 4) 32 commands

/-- The commands of the handler calls in a trace. -/
def dispatched (events : List V1Event) : List UInt8 :=
  events.filterMap fun
    | .call c => some c.command
    | .read _ _ => none

/-- The walk returns, and has called the handler for the commands `cs`, in order, once each. -/
def Dispatches (p : Packet) (isclient : Bool) (cs : List UInt8) : Prop :=
  ∃ fuel, (smbprotoV1Packet p isclient fuel).result.isSome = true ∧
    dispatched (smbprotoV1Packet p isclient fuel).events = cs

end SmbProxy.Interface
