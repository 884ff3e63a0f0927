import SmbProxy.Interface.RingQueue

/-!
# The two ways to normalise a ring

`butil_normalize_ring` moves a wrapped ring through a scratch buffer if it is given one,
and rotates it in place if it is not. The caller is not to see which (`NormalizesAlike`).
-/

set_option autoImplicit false

namespace SmbProxy.Interface

open SmbProxy.Library SmbProxy.Model

/-- The same counters. -/
structure SameCounters (r r' : Ioring) : Prop where
  head : r.head = r'.head
  tail : r.tail = r'.tail
  count : r.count = r'.count
  size : r.size = r'.size

/-- The room at the write pointer once `n` bytes have been taken. -/
def roomAfter (ring : Ioring) (n : ℕ) : ℤ := (butilRingContiguousWritePtr (ringConsume ring n)).bytes

/-- With the scratch buffer and without it the ring has the same counters and the same
queue, is well formed, and has the same room after any take that leaves bytes in it. -/
structure NormalizesAlike (ring : Ioring) (temp : ℤ → UInt8) : Prop where
  counters : SameCounters (butilNormalizeRing ring (some temp)) (butilNormalizeRing ring none)
  contents : (butilNormalizeRing ring (some temp)).contents = (butilNormalizeRing ring none).contents
  withTemp : (butilNormalizeRing ring (some temp)).WellFormed
  inPlace : (butilNormalizeRing ring none).WellFormed
  room : ∀ n : ℕ, n < ring.count → roomAfter (butilNormalizeRing ring (some temp)) n =
    roomAfter (butilNormalizeRing ring none) n

end SmbProxy.Interface
