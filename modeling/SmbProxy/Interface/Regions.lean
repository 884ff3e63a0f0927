import SmbProxy.Interface.RingQueue

/-!
# The two contiguous regions of a ring

The caller of a pointer function gets a region to use as a plain array. It is to be exact:
as long as a run of free bytes from `head` on can be, and of live bytes from `tail` on
(`RegionsExact`), so that two regions are all that there are.
-/

set_option autoImplicit false

namespace SmbProxy.Interface

open SmbProxy.Library SmbProxy.Model

/-- The cell holds a byte of the queue. -/
def Live (ring : Ioring) (a : ℤ) : Prop :=
  ∃ i, 0 ≤ i ∧ i < ring.count ∧ a = (ring.tail + i) % ring.size

/-- The room at the write pointer. -/
def room (ring : Ioring) : ℤ := (butilRingContiguousWritePtr ring).bytes

/-- The bytes at the read pointer. -/
def ready (ring : Ioring) : ℤ := (butilRingContiguousReadPtr ring).bytes

/-- Each region is the longest run of its kind from its pointer to the end of the array, and
two of them are all that is free, or live. -/
structure RegionsExact (ring : Ioring) : Prop where
  writeRegion : LongestRun (fun a => ¬ Live ring a) ring.size
    (butilRingContiguousWritePtr ring).ptr (butilRingContiguousWritePtr ring).bytes
  writeStart : (butilRingContiguousWritePtr ring).ptr = ring.head
  writeFull : room ring = 0 → ring.count = ring.size
  readRegion : LongestRun (Live ring) ring.size
    (butilRingContiguousReadPtr ring).ptr (butilRingContiguousReadPtr ring).bytes
  readStart : (butilRingContiguousReadPtr ring).ptr = ring.tail
  readEmpty : ready ring = 0 → ring.count = 0
  fill : ∀ first second : List UInt8, first.length = room ring →
    second.length = room (ringProduce ring first) →
      room ring + room (ringProduce ring first) = ring.size - ring.count ∧
        room (ringProduce (ringProduce ring first) second) = 0
  drain : ready ring + ready (ringConsume ring (ready ring)) = ring.count ∧
    ready (ringConsume (ringConsume ring (ready ring))
      (ready (ringConsume ring (ready ring)))) = 0

end SmbProxy.Interface
