import SmbProxy.Interface.RingQueue
import SmbProxy.Model.Gateway

/-!
# What the proxy loop promises

The states of a half between two of its writes (`Half.Waiting`), and what a connection
owes to its two ends: every byte sent to one was received from the other, in order
(`Forwards`), and nothing of a rejected block is (`Validates`).
-/

set_option autoImplicit false

namespace SmbProxy.Model

open SmbProxy.Library

/-- The live bytes start at the start of the array. `head` is behind them, and back at
the start when they fill the array. -/
structure Ioring.AtStart (ring : Ioring) : Prop where
  size_pos : 1 ≤ ring.size
  tail_eq : ring.tail = 0
  count_nonneg : 0 ≤ ring.count
  count_le : ring.count ≤ ring.size
  head_eq : ring.head = ring.count ∧ ring.count < ring.size ∨
    ring.head = 0 ∧ ring.count = ring.size

instance (ring : Ioring) : Decidable ring.AtStart :=
  decidable_of_iff
    (1 ≤ ring.size ∧ ring.tail = 0 ∧ 0 ≤ ring.count ∧ ring.count ≤ ring.size ∧
      (ring.head = ring.count ∧ ring.count < ring.size ∨ ring.head = 0 ∧ ring.count = ring.size))
    ⟨fun ⟨h1, h2, h3, h4, h5⟩ => ⟨h1, h2, h3, h4, h5⟩,
      fun ⟨h1, h2, h3, h4, h5⟩ => ⟨h1, h2, h3, h4, h5⟩⟩

/-- A half that has at most what it waits for: a header of four bytes, or a message of
which the header is already there. -/
structure Half.Waiting (half : Half) : Prop where
  ring : half.ring.AtStart
  count_le : half.ring.count ≤ half.packetRemain
  header : half.packetState = .psHeader → half.packetRemain = 4
  body : half.packetState ≠ .psHeader → 4 ≤ half.ring.count

/-- The number a half takes for the length when a read of `bytes` completes a header: four
bytes from where this read began. -/
def Half.headerWord (half : Half) (bytes : List UInt8) : ℕ :=
  be32 (half.received bytes).ring.data half.ring.head

/-- The half of this side is in `tcp_write`. -/
def Conn.Writing (c : Conn) (side : Side) : Prop :=
  ∃ ioptr chunk sent, c.pc = .write side ioptr chunk sent

/-- The last connection ended in the `tcp_write` of this side's half. -/
def Conn.WriteFailed (c : Conn) (side : Side) : Prop :=
  ∃ result, c.pc = .idle (some ⟨side, .writeFailed, result⟩)

end SmbProxy.Model

namespace SmbProxy.Interface

open SmbProxy.Library SmbProxy.Model

/-- What is received on one side is sent on the other, in order and nothing else; what is
not sent yet is in the ring. While a block is being sent, and after that has failed, the
ring still holds the whole block. -/
structure Forwards (c : Conn) (side : Side) : Prop where
  sent : (c.socket side.peer).tx <+: (c.socket side).rx
  unsent : ¬ c.Writing side → ¬ c.WriteFailed side →
    (c.socket side).rx = (c.socket side.peer).tx ++ (c.half side).ring.contents
  block : ∃ before sent, (c.socket side).rx = before ++ (c.half side).ring.contents ∧
    (c.socket side.peer).tx = before ++ (c.half side).ring.contents.take sent

/-- The bytes `tcp_read` is asked for, if it comes to that, are inside the ring from the
write pointer on, and so are the four bytes that are copied when it completes a header. -/
structure ReceiveInBounds (half : Half) : Prop where
  ioptr : 0 ≤ (butilRingContiguousWritePtr half.ring).ptr
  chunk : ¬ (butilRingContiguousWritePtr half.ring).bytes < half.chunk →
    0 ≤ half.chunk ∧ (butilRingContiguousWritePtr half.ring).ptr + half.chunk ≤ half.ring.size
  header : half.packetState = .psHeader →
    (butilRingContiguousWritePtr half.ring).ptr + 4 ≤ half.ring.size

/-- If this input completes a header, then its length and the header fit into the ring, or
the length is above the limit. -/
def HeaderFits (c : Conn) : Input → Prop
  | .read event =>
    match c.pc with
    | .read side =>
      let half := c.half side
      let bytes := (tcpRead event half.chunk).1
      half.packetState = .psHeader → half.ring.count + bytes.length = half.packetRemain →
        half.headerWord bytes + 4 ≤ half.ring.size ∨ 0x1FFFFF < half.headerWord bytes
    | _ => True
  | _ => True

instance decidableHeaderFits (c : Conn) : (input : Input) → Decidable (HeaderFits c input)
  | .start _ => inferInstanceAs (Decidable True)
  | .write _ => inferInstanceAs (Decidable True)
  | .read event =>
    match hpc : c.pc with
    | .read side =>
      let half := c.half side
      let bytes := (tcpRead event half.chunk).1
      decidable_of_iff
        (half.packetState = .psHeader → half.ring.count + bytes.length = half.packetRemain →
          half.headerWord bytes + 4 ≤ half.ring.size ∨ 0x1FFFFF < half.headerWord bytes)
        (by simp only [HeaderFits, hpc]; rfl)
    | .write _ _ _ _ => isTrue (by simp [HeaderFits, hpc])
    | .idle _ => isTrue (by simp [HeaderFits, hpc])

/-- Only accepted blocks are sent. The judged blocks stand at the front of the received
stream, one behind the other, and what is sent ends before the first rejected one. -/
structure Validates (c : Conn) (side : Side) : Prop where
  accepted : (c.socket side.peer).tx <+:
    (((c.judged side).filter fun e => e.2 = 0).map Prod.fst).flatten
  withheld : ∀ (before : List (List UInt8 × ℤ)) (block : List UInt8) (verdict : ℤ)
    (after : List (List UInt8 × ℤ)),
    c.judged side = before ++ (block, verdict) :: after → verdict ≠ 0 →
      (before.map Prod.fst).flatten ++ block <+: (c.socket side).rx ∧
        (c.socket side.peer).tx <+: (before.map Prod.fst).flatten

end SmbProxy.Interface
