import SmbProxy.Library.Loop
import SmbProxy.Library.Memory

/-!
# The ring buffer of `butil`

`ioring_t` and the functions of butil.c:44-163 on it, with the two pieces of ring code
that `smbgw_thread` has inline (produce, smbgw.c:120-125, and consume,
smbgw.c:190-201). The `int` fields are integers, `data` is the memory from
`ring->data` on, and a pointer into the ring is its distance from `ring->data`.
The `NULL` guards on `ring` are left out: every caller passes the address of a field.
-/

set_option autoImplicit false

namespace SmbProxy.Model

open SmbProxy.Library

/-- `ioring_t`.
SOURCE: butil.h:94-100 -/
structure Ioring where
  head : ℤ
  tail : ℤ
  count : ℤ
  size : ℤ
  data : ℤ → UInt8

/-- What the two pointer functions report: the pointer they store and the number of
bytes they return. -/
structure Region where
  ptr : ℤ
  bytes : ℤ

/-- `butil_reset_ring`.
SOURCE: butil.c:109-118 -/
def butilResetRing (ring : Ioring) : Ioring :=
  { ring with head := 0, tail := 0, count := 0 }

/-- `butil_ring_contiguous_write_ptr`.
SOURCE: butil.c:120-143 -/
def butilRingContiguousWritePtr (ring : Ioring) : Region where
  ptr := ring.head
  bytes :=
    if ring.head < ring.tail then ring.tail - ring.head
    else if ring.count < ring.size then ring.size - ring.head
    else 0

/-- `butil_ring_contiguous_read_ptr`.
SOURCE: butil.c:145-163 -/
def butilRingContiguousReadPtr (ring : Ioring) : Region where
  ptr := ring.tail
  bytes :=
    if ring.head > ring.tail then ring.head - ring.tail
    else if ring.count > 0 then ring.size - ring.tail
    else 0

/-- One pass of the two rotation loops of `butil_normalize_ring`: the first `n` bytes
go through `mbuf` to the end, the rest moves down.
SOURCE: butil.c:79-93 (`n = 4`), butil.c:97-105 (`n = 1`) -/
def rotateBody (n : ℕ) (ring : Ioring) : Ioring :=
  let mbuf := window ring.data 0 n
  let moved := moveCells ring.data 0 n (ring.size - n)
  let head := ring.head - n
  { ring with
    data := store moved (ring.size - n) mbuf
    tail := ring.tail - n
    head := if head < 0 then head + ring.size else head }

/-- `butil_normalize_ring`; `temp` is the scratch buffer, `none` for `NULL`. The loops
get `tail` passes, more than they can use.
SOURCE: butil.c:44-107 -/
def butilNormalizeRing (ring : Ioring) (temp : Option (ℤ → UInt8)) : Ioring :=
  if ring.tail = 0 then ring
  else if ring.count = 0 then { ring with tail := 0, head := 0 }
  else if ring.tail < ring.head then
    { ring with
      data := moveCells ring.data 0 ring.tail ring.count
      tail := 0
      head := ring.count }
  else
    match temp with
    | some temp =>
      let temp := store temp 0 (window ring.data 0 ring.head.toNat)
      let moved := moveCells ring.data 0 ring.tail (ring.size - ring.tail)
      { ring with
        data := store moved (ring.size - ring.tail) (window temp 0 ring.head.toNat)
        tail := 0
        head := ring.count }
    | none =>
      let ring := whileLoop (fun r => decide (r.tail ≥ 4)) (rotateBody 4) ring.tail.toNat ring
      whileLoop (fun r => decide (r.tail > 0)) (rotateBody 1) ring.tail.toNat ring

/-- Bytes received at the write pointer are counted in.
SOURCE: smbgw.c:120-125, smbgw.c:231-236 -/
def ringProduce (ring : Ioring) (bytes : List UInt8) : Ioring :=
  let head := ring.head + bytes.length
  { ring with
    data := store ring.data ring.head bytes
    count := ring.count + bytes.length
    head := if head ≥ ring.size then 0 else head }

/-- `result` bytes written from the read pointer are counted out, and a ring that
runs empty is reset.
SOURCE: smbgw.c:190-201, smbgw.c:301-312 -/
def ringConsume (ring : Ioring) (result : ℤ) : Ioring :=
  let tail := ring.tail + result
  let ring :=
    { ring with
      count := ring.count - result
      tail := if tail ≥ ring.size then 0 else tail }
  if ring.count = 0 then butilResetRing ring else ring

/-! ## The fields after each operation -/

/-- A ring that is reset writes at the start of its array. -/
@[simp] theorem butilResetRing_head (ring : Ioring) : (butilResetRing ring).head = 0 := rfl

/-- It reads there, too. -/
@[simp] theorem butilResetRing_tail (ring : Ioring) : (butilResetRing ring).tail = 0 := rfl

/-- It has no bytes. -/
@[simp] theorem butilResetRing_count (ring : Ioring) : (butilResetRing ring).count = 0 := rfl

/-- It is as large as it was. -/
@[simp] theorem butilResetRing_size (ring : Ioring) : (butilResetRing ring).size = ring.size := rfl

/-- The write pointer moves on by the bytes, and from the end of the array back to its start. -/
theorem ringProduce_head (ring : Ioring) (bytes : List UInt8) :
    (ringProduce ring bytes).head =
      if ring.head + bytes.length ≥ ring.size then 0 else ring.head + bytes.length := rfl

/-- The read pointer stays. -/
@[simp] theorem ringProduce_tail (ring : Ioring) (bytes : List UInt8) :
    (ringProduce ring bytes).tail = ring.tail := rfl

/-- The bytes are counted in. -/
@[simp] theorem ringProduce_count (ring : Ioring) (bytes : List UInt8) :
    (ringProduce ring bytes).count = ring.count + bytes.length := rfl

/-- The bytes are stored from the write pointer on. -/
@[simp] theorem ringProduce_data (ring : Ioring) (bytes : List UInt8) :
    (ringProduce ring bytes).data = store ring.data ring.head bytes := rfl

/-- The ring is as large as it was. -/
@[simp] theorem ringProduce_size (ring : Ioring) (bytes : List UInt8) :
    (ringProduce ring bytes).size = ring.size := rfl

/-- To consume leaves the size of the ring. -/
@[simp] theorem ringConsume_size (ring : Ioring) (result : ℤ) :
    (ringConsume ring result).size = ring.size := by
  unfold ringConsume
  dsimp only
  split <;> rfl

/-- To consume all that is there resets the ring. -/
theorem ringConsume_all {ring : Ioring} {result : ℤ} (h : ring.count = result) :
    ringConsume ring result = butilResetRing ring := by
  simp [ringConsume, butilResetRing, h]

/-- A rotation leaves the size of the ring. -/
@[simp] theorem rotateBody_size (n : ℕ) (ring : Ioring) : (rotateBody n ring).size = ring.size := rfl

/-- It leaves the number of bytes. -/
@[simp] theorem rotateBody_count (n : ℕ) (ring : Ioring) :
    (rotateBody n ring).count = ring.count := rfl

/-- It moves the read pointer down. -/
@[simp] theorem rotateBody_tail (n : ℕ) (ring : Ioring) :
    (rotateBody n ring).tail = ring.tail - n := rfl

/-- It moves the write pointer down, and from the start of the array up to its end. -/
theorem rotateBody_head (n : ℕ) (ring : Ioring) :
    (rotateBody n ring).head =
      if ring.head - n < 0 then ring.head - n + ring.size else ring.head - n := rfl

/-- A ring that begins at the start of its array is normal already. -/
theorem butilNormalizeRing_of_tail_zero {ring : Ioring} (h : ring.tail = 0)
    (temp : Option (ℤ → UInt8)) : butilNormalizeRing ring temp = ring := by
  simp [butilNormalizeRing, h]

end SmbProxy.Model
