import SmbProxy.Analysis.RingQueue
import SmbProxy.Interface.Proxy

/-!
# What one half of the loop does

`halfRead_outcome` is the whole of it: from a waiting half, a read leads to one of seven
outcomes (`HalfOutcome`), each with the half it leaves, the bytes received and the way
on. The ring of a waiting half starts at the start of its array, so that normalising does
nothing, the room is what is free, and the readable run is everything in the ring.
-/

set_option autoImplicit false

namespace SmbProxy.Analysis

open SmbProxy.Library SmbProxy.Model SmbProxy.Interface

/-! ## Rings that start at the start -/

/-- A ring that starts at the start of its array is well formed. -/
theorem atStart_wellFormed {ring : Ioring} (h : ring.AtStart) : ring.WellFormed := by
  obtain ⟨h1, h2, h3, h4, h5⟩ := h
  refine wellFormed_of_wrap h1 ?_ ?_ h3 h4 ?_ <;> omega

/-- A well-formed ring with its tail at 0 starts at the start of its array. -/
theorem atStart_of_wellFormed {ring : Ioring} (h : ring.WellFormed) (htail : ring.tail = 0) :
    ring.AtStart := by
  have hwrap := head_eq_wrap h
  have := h.count_le
  refine ⟨h.size_pos, htail, h.count_nonneg, h.count_le, ?_⟩
  omega

/-- A ring starts at the start when it has been reset. -/
theorem butilResetRing_atStart {ring : Ioring} (h : 1 ≤ ring.size) :
    (butilResetRing ring).AtStart :=
  atStart_of_wellFormed (butilResetRing_spec h).1 rfl

/-- In such a ring all that is free can be written in one piece. -/
theorem writePtr_of_atStart {ring : Ioring} (h : ring.AtStart) :
    (butilRingContiguousWritePtr ring).bytes = ring.size - ring.count := by
  obtain ⟨h1, h2, h3, h4, h5⟩ := h
  unfold butilRingContiguousWritePtr
  dsimp only
  split_ifs <;> omega

/-- In such a ring all that is there can be read in one piece. -/
theorem readPtr_of_atStart {ring : Ioring} (h : ring.AtStart) :
    butilRingContiguousReadPtr ring = ⟨0, ring.count⟩ := by
  have hbytes := readPtr_of_tail_zero (atStart_wellFormed h) h.tail_eq
  have hptr : (butilRingContiguousReadPtr ring).ptr = 0 := h.tail_eq
  cases hregion : butilRingContiguousReadPtr ring with
  | mk ptr bytes =>
      rw [hregion] at hbytes hptr
      simp only at hbytes hptr
      rw [hbytes, hptr]

/-- The bytes of such a ring are those from the start of its array on. -/
theorem contents_of_atStart {ring : Ioring} (h : ring.AtStart) :
    ring.contents = window ring.data 0 ring.count.toNat := by
  have := h.count_nonneg
  have := h.count_le
  unfold Ioring.contents
  rw [h.tail_eq, cyclicWindow_eq_window _ le_rfl (by omega)]

/-- They are as many as it counts. -/
theorem contents_length {ring : Ioring} (h : ring.AtStart) :
    (ring.contents.length : ℤ) = ring.count := by
  have := h.count_nonneg
  rw [contents_of_atStart h, window_length]
  omega

/-- Bytes for which there is room go behind those that are there. -/
theorem ringProduce_atStart {ring : Ioring} (h : ring.AtStart) {bytes : List UInt8}
    (hfit : ring.count + bytes.length ≤ ring.size) :
    (ringProduce ring bytes).AtStart ∧
      (ringProduce ring bytes).contents = ring.contents ++ bytes := by
  have hroom : (bytes.length : ℤ) ≤ (butilRingContiguousWritePtr ring).bytes := by
    rw [writePtr_of_atStart h]
    omega
  obtain ⟨hwf, hcontents⟩ := ringProduce_spec (atStart_wellFormed h) hroom
  exact ⟨atStart_of_wellFormed hwf h.tail_eq, hcontents⟩

/-- No bytes change nothing. -/
theorem ringProduce_nil {ring : Ioring} (h : ring.AtStart) : ringProduce ring [] = ring := by
  have hlt := (atStart_wellFormed h).head_lt
  unfold ringProduce
  simp [not_le.mpr hlt]

/-- To consume all that is there is to reset the ring. -/
theorem ringConsume_atStart (ring : Ioring) : ringConsume ring ring.count = butilResetRing ring :=
  ringConsume_all rfl

/-! ## The branches of a half -/

section Branches

variable {packet : (ℤ → UInt8) → ℤ → ℤ} {passthrough : Bool} {half : Half}

/-- What does not fit into the ring is an internal error, before anything is read. -/
theorem halfRead_of_short (h : half.ring.AtStart)
    (hshort : half.ring.size < half.packetRemain) (event : ReadEvent) :
    halfRead packet passthrough half event = ⟨half, [], none, .leave .internalError (-1)⟩ := by
  unfold halfRead
  dsimp only
  rw [if_pos]
  rw [writePtr_of_atStart h, Half.chunk]
  omega

/-- A read that fails ends the loop. -/
theorem halfRead_of_failed (h : half.ring.AtStart) (hroom : half.packetRemain ≤ half.ring.size)
    {event : ReadEvent} (hread : tcpRead event half.chunk = ([], -1)) :
    halfRead packet passthrough half event = ⟨half, [], none, .leave .readFailed (-1)⟩ := by
  have hnot : ¬ (butilRingContiguousWritePtr half.ring).bytes < half.chunk := by
    rw [writePtr_of_atStart h, Half.chunk]
    omega
  unfold halfRead
  dsimp only
  rw [if_neg hnot, hread]
  rfl

/-- `tcp_read` returns the number of bytes it has read, or 0. -/
theorem halfRead_of_read (h : half.ring.AtStart) (hroom : half.packetRemain ≤ half.ring.size)
    {event : ReadEvent} {bytes : List UInt8}
    (hread : tcpRead event half.chunk = (bytes, (bytes.length : ℤ))) :
    halfRead packet passthrough half event =
      if half.ring.count + bytes.length = half.packetRemain then
        if half.packetState = .psHeader then
          halfHeader (half.received bytes) half.ring.head bytes
        else halfBody packet passthrough (half.received bytes) bytes
      else ⟨half.received bytes, bytes, none, .done⟩ := by
  have hnot : ¬ (butilRingContiguousWritePtr half.ring).bytes < half.chunk := by
    rw [writePtr_of_atStart h, Half.chunk]
    omega
  have hhalf : (if (bytes.length : ℤ) > 0 then half.received bytes else half) =
      half.received bytes := by
    by_cases hpos : (bytes.length : ℤ) > 0
    · rw [if_pos hpos]
    · have hnil : bytes = [] := List.length_eq_zero_iff.mp (by omega)
      rw [if_neg hpos, hnil, Half.received, ringProduce_nil h]
  have hresult : (if (bytes.length : ℤ) > 0 then 0 else (bytes.length : ℤ)) = 0 := by
    split_ifs <;> omega
  unfold halfRead
  dsimp only
  rw [if_neg hnot, hread]
  dsimp only
  rw [hhalf, hresult]
  rfl

/-- A length above the limit ends the loop. -/
theorem halfHeader_of_gt {ioptr : ℤ} {received : List UInt8}
    (h : 0x1FFFFF < be32 half.ring.data ioptr) :
    halfHeader half ioptr received = ⟨half, received, none, .leave .invalidHeader (-1)⟩ :=
  if_pos h

/-- A length up to the limit is what the half waits for from now on. -/
theorem halfHeader_of_le {ioptr : ℤ} {received : List UInt8}
    (h : be32 half.ring.data ioptr ≤ 0x1FFFFF) :
    halfHeader half ioptr received =
      ⟨{ half with packetState := .psBody, packetRemain := be32 half.ring.data ioptr + 4 },
        received, none, .done⟩ :=
  if_neg (not_lt.mpr h)

/-- The verdict on a complete message, 0 in passthrough mode. -/
def halfVerdict (packet : (ℤ → UInt8) → ℤ → ℤ) (passthrough : Bool) (half : Half) : ℤ :=
  if passthrough then 0 else packet (fun i => half.ring.data (0 + 4 + i)) (half.ring.count - 4)

/-- A complete message is judged as the block in the ring, and written if it is accepted. -/
theorem halfBody_eq (h : half.ring.AtStart) (hpos : 0 < half.ring.count)
    {received : List UInt8} :
    halfBody packet passthrough half received =
      if halfVerdict packet passthrough half ≠ 0 then
        ⟨half, received,
          if passthrough then none
          else some (half.ring.contents, halfVerdict packet passthrough half),
          .leave .rejected (halfVerdict packet passthrough half)⟩
      else
        ⟨⟨half.ring, .psHeader, 4⟩, received,
          if passthrough then none
          else some (half.ring.contents, halfVerdict packet passthrough half),
          .write 0 half.ring.count⟩ := by
  unfold halfBody halfVerdict
  simp only [butilNormalizeRing_of_tail_zero h.tail_eq, readPtr_of_atStart h,
    contents_of_atStart h, gt_iff_lt, hpos, if_true]

end Branches

/-! ## The outcomes of a read -/

/-- What a read can lead to. -/
inductive HalfOutcome (packet : (ℤ → UInt8) → ℤ → ℤ) (passthrough : Bool) (half : Half) :
    HalfStep → Prop
  /-- What is wanted does not fit into the ring. -/
  | internalError : half.ring.size < half.packetRemain →
      HalfOutcome packet passthrough half ⟨half, [], none, .leave .internalError (-1)⟩
  | readFailed : half.packetRemain ≤ half.ring.size →
      HalfOutcome packet passthrough half ⟨half, [], none, .leave .readFailed (-1)⟩
  /-- Some of what is wanted has come, or nothing. -/
  | more {bytes : List UInt8} : half.packetRemain ≤ half.ring.size →
      half.ring.count + bytes.length < half.packetRemain →
      HalfOutcome packet passthrough half ⟨half.received bytes, bytes, none, .done⟩
  | invalidHeader {bytes : List UInt8} : half.packetRemain ≤ half.ring.size →
      half.ring.count + bytes.length = half.packetRemain → half.packetState = .psHeader →
      0x1FFFFF < half.headerWord bytes →
      HalfOutcome packet passthrough half
        ⟨half.received bytes, bytes, none, .leave .invalidHeader (-1)⟩
  | header {bytes : List UInt8} : half.packetRemain ≤ half.ring.size →
      half.ring.count + bytes.length = half.packetRemain → half.packetState = .psHeader →
      half.headerWord bytes ≤ 0x1FFFFF →
      HalfOutcome packet passthrough half
        ⟨⟨(half.received bytes).ring, .psBody, half.headerWord bytes + 4⟩, bytes, none, .done⟩
  | rejected {bytes : List UInt8} {verdict : ℤ} : half.packetRemain ≤ half.ring.size →
      half.ring.count + bytes.length = half.packetRemain → half.packetState ≠ .psHeader →
      passthrough = false → verdict ≠ 0 →
      HalfOutcome packet passthrough half
        ⟨half.received bytes, bytes, some ((half.received bytes).ring.contents, verdict),
          .leave .rejected verdict⟩
  /-- The message is accepted: the half is in `tcp_write` of all that is in the ring. -/
  | forward {bytes : List UInt8} : half.packetRemain ≤ half.ring.size →
      half.ring.count + bytes.length = half.packetRemain → half.packetState ≠ .psHeader →
      HalfOutcome packet passthrough half
        ⟨⟨(half.received bytes).ring, .psHeader, 4⟩, bytes,
          if passthrough then none else some ((half.received bytes).ring.contents, 0),
          .write 0 half.packetRemain⟩

/-- Bytes that the half has waited for are behind those that it had. -/
theorem received_atStart {half : Half} (h : half.Waiting)
    (hroom : half.packetRemain ≤ half.ring.size) {bytes : List UInt8}
    (hfit : half.ring.count + bytes.length ≤ half.packetRemain) :
    (half.received bytes).ring.AtStart ∧
      (half.received bytes).ring.contents = half.ring.contents ++ bytes :=
  ringProduce_atStart h.ring (by omega)

/-- An empty ring waits for a header. -/
theorem waiting_reset {ring : Ioring} (h : 1 ≤ ring.size) :
    Half.Waiting ⟨butilResetRing ring, .psHeader, 4⟩ := by
  refine ⟨butilResetRing_atStart h, ?_, fun _ => rfl, fun hne => absurd rfl hne⟩
  show (0 : ℤ) ≤ 4
  omega

/-- A half that has got some of what it waits for still waits. -/
theorem waiting_received {half : Half} (h : half.Waiting)
    (hroom : half.packetRemain ≤ half.ring.size) {bytes : List UInt8}
    (hfit : half.ring.count + bytes.length ≤ half.packetRemain) :
    (half.received bytes).Waiting := by
  refine ⟨(received_atStart h hroom hfit).1, hfit, h.header, ?_⟩
  intro hstate
  have hbody := h.body hstate
  have hcount : (half.received bytes).ring.count = half.ring.count + bytes.length := rfl
  omega

/-- A half that has got a header waits for the message. -/
theorem waiting_headed {half : Half} (h : half.Waiting)
    (hroom : half.packetRemain ≤ half.ring.size) {bytes : List UInt8}
    (hfull : half.ring.count + bytes.length = half.packetRemain)
    (hstate : half.packetState = .psHeader) (length : ℕ) :
    Half.Waiting ⟨(half.received bytes).ring, .psBody, length + 4⟩ := by
  have hcount : (half.received bytes).ring.count = 4 := calc
    half.ring.count + bytes.length = half.packetRemain := hfull
    _ = 4 := h.header hstate
  refine ⟨(received_atStart h hroom hfull.le).1, ?_, fun hne => ?_, fun _ => hcount.ge⟩
  · show (half.received bytes).ring.count ≤ (length : ℤ) + 4
    omega
  · cases hne

/-- A read fails, or brings no more than the half waits for. -/
theorem tcpRead_chunk_cases {half : Half} (h : half.Waiting) (event : ReadEvent) :
    tcpRead event half.chunk = ([], -1) ∨
      ∃ bytes : List UInt8, half.ring.count + bytes.length ≤ half.packetRemain ∧
        tcpRead event half.chunk = (bytes, (bytes.length : ℤ)) := by
  have hcount := h.count_le
  have hchunk : half.chunk = half.packetRemain - half.ring.count := rfl
  rcases tcpRead_cases event half.chunk with hfail | hnone | ⟨bytes, -, hlen, hread⟩
  · exact Or.inl hfail
  · exact Or.inr ⟨[], by simpa using hcount, hnone⟩
  · have hsize := @sizeT_le half.chunk (by omega)
    exact Or.inr ⟨bytes, by omega, hread⟩

/-- **The outcomes of a half.** -/
theorem halfRead_outcome {packet : (ℤ → UInt8) → ℤ → ℤ} {passthrough : Bool} {half : Half}
    (h : half.Waiting) (event : ReadEvent) :
    HalfOutcome packet passthrough half (halfRead packet passthrough half event) := by
  by_cases hshort : half.ring.size < half.packetRemain
  · rw [halfRead_of_short h.ring hshort]
    exact .internalError hshort
  have hroom := not_lt.mp hshort
  rcases tcpRead_chunk_cases h event with hfail | ⟨bytes, hfit, hread⟩
  · rw [halfRead_of_failed h.ring hroom hfail]
    exact .readFailed hroom
  rw [halfRead_of_read h.ring hroom hread]
  obtain ⟨hring, -⟩ := received_atStart h hroom hfit
  by_cases hfull : half.ring.count + bytes.length = half.packetRemain
  · rw [if_pos hfull]
    by_cases hstate : half.packetState = .psHeader
    · rw [if_pos hstate]
      by_cases hgt : 0x1FFFFF < half.headerWord bytes
      · rw [halfHeader_of_gt hgt]
        exact .invalidHeader hroom hfull hstate hgt
      · have hle := not_lt.mp hgt
        rw [halfHeader_of_le hle]
        exact .header hroom hfull hstate hle
    · have hcount : (half.received bytes).ring.count = half.packetRemain := hfull
      have hbody := h.body hstate
      rw [if_neg hstate, halfBody_eq hring (by omega)]
      by_cases hverdict : halfVerdict packet passthrough (half.received bytes) = 0
      · rw [if_neg (not_not.mpr hverdict), hverdict, hcount]
        exact .forward hroom hfull hstate
      · rw [if_pos hverdict]
        cases passthrough with
        | true => exact absurd rfl hverdict
        | false => exact .rejected hroom hfull hstate rfl hverdict
  · rw [if_neg hfull]
    exact .more hroom (by omega)

end SmbProxy.Analysis
