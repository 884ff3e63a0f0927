import SmbProxy.Library.Machine
import SmbProxy.Model.Ring

/-!
# What the ring is for: a first-in first-out queue of bytes

`Ioring.contents` reads a ring as the list of its live bytes, oldest first, and
`Ioring.WellFormed` says when the four counters of a ring describe such a list. The
gateway uses a ring through four operations (`RingOp`); each has a meaning on the ring
(`RingOp.onRing`, made of the functions of `Model.Ring`) and one on an abstract queue
(`RingOp.onQueue`: append, drop, nothing, clear).
-/

set_option autoImplicit false

namespace SmbProxy.Model

open SmbProxy.Library

/-- The counters of a ring are consistent. `head = tail` is empty or full, told apart
by `count`. -/
structure Ioring.WellFormed (ring : Ioring) : Prop where
  size_pos : 1 ≤ ring.size
  head_nonneg : 0 ≤ ring.head
  head_lt : ring.head < ring.size
  tail_nonneg : 0 ≤ ring.tail
  tail_lt : ring.tail < ring.size
  count_nonneg : 0 ≤ ring.count
  count_le : ring.count ≤ ring.size
  head_eq : ring.head = (ring.tail + ring.count) % ring.size

/-- The live bytes of a ring, oldest first. -/
def Ioring.contents (ring : Ioring) : List UInt8 :=
  cyclicWindow ring.data ring.size ring.tail ring.count.toNat

end SmbProxy.Model

namespace SmbProxy.Interface

open SmbProxy.Library SmbProxy.Model

/-- The operations `smbgw_thread` performs on a ring.
SOURCE: smbgw.c:120-125, smbgw.c:190-201, smbgw.c:161, smbgw.c:200 -/
inductive RingOp
  | store (bytes : List UInt8)
  | take (n : ℕ)
  | normalize
  | reset

/-- What the operation does to the ring. -/
def RingOp.onRing (ring : Ioring) : RingOp → Ioring
  | .store bytes => ringProduce ring bytes
  | .take n => ringConsume ring n
  | .normalize => butilNormalizeRing ring none
  | .reset => butilResetRing ring

/-- What the operation does to the queue. -/
def RingOp.onQueue (queue : List UInt8) : RingOp → List UInt8
  | .store bytes => queue ++ bytes
  | .take n => queue.drop n
  | .normalize => queue
  | .reset => []

/-- A store or a take stays within the run the pointer function reported. -/
def RingOp.Allowed (ring : Ioring) : RingOp → Prop
  | .store bytes => bytes.length ≤ (butilRingContiguousWritePtr ring).bytes
  | .take n => n ≤ (butilRingContiguousReadPtr ring).bytes
  | .normalize => True
  | .reset => True

instance decidableAllowed (ring : Ioring) : (op : RingOp) → Decidable (op.Allowed ring)
  | .store _ => inferInstanceAs (Decidable (_ ≤ _))
  | .take _ => inferInstanceAs (Decidable (_ ≤ _))
  | .normalize => inferInstanceAs (Decidable True)
  | .reset => inferInstanceAs (Decidable True)

end SmbProxy.Interface
