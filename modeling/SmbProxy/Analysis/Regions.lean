import SmbProxy.Interface.Regions
import SmbProxy.Analysis.RingQueue

/-!
# The contiguous regions are exact

Which cells are live, without the modulus, is `live_iff`. With it each region ends with the
array or before a cell of the other kind (`writeRegion_longest`, `readRegion_longest`). A
ring whose first region is used up starts the second one at the beginning of the array.
-/

set_option autoImplicit false

namespace SmbProxy.Analysis

open SmbProxy.Library SmbProxy.Model SmbProxy.Interface

section Regions

variable {ring : Ioring}

/-- The live cells: those from `tail` on, and those at the beginning of the array that the
queue has wrapped to. -/
theorem live_iff (h : ring.WellFormed) {a : ℤ} (h0 : 0 ≤ a) (ha : a < ring.size) :
    Live ring a ↔
      ring.tail ≤ a ∧ a < ring.tail + ring.count ∨ a < ring.tail + ring.count - ring.size := by
  have hcount := h.count_le
  have htail := h.tail_nonneg
  have htail' := h.tail_lt
  constructor
  · rintro ⟨i, hi, hlt, rfl⟩
    have hcell := cell_eq_wrap h hi (by omega)
    omega
  · rintro (⟨hge, hlt⟩ | hlt)
    · refine ⟨a - ring.tail, by omega, by omega, ?_⟩
      have hcell := cell_eq_wrap h (i := a - ring.tail) (by omega) (by omega)
      omega
    · refine ⟨a + ring.size - ring.tail, by omega, by omega, ?_⟩
      have hcell := cell_eq_wrap h (i := a + ring.size - ring.tail) (by omega) (by omega)
      omega

/-- The room at the write pointer. -/
theorem room_eq (h : ring.WellFormed) :
    room ring =
      if ring.tail + ring.count < ring.size then ring.size - ring.head
      else ring.tail - ring.head := by
  have hhead := head_eq_wrap h
  obtain ⟨h1, h2, h3, h4, h5, h6, h7, -⟩ := h
  unfold room butilRingContiguousWritePtr
  dsimp only
  split_ifs <;> omega

/-- The bytes at the read pointer. -/
theorem ready_eq (h : ring.WellFormed) :
    ready ring =
      if ring.tail + ring.count < ring.size then ring.count else ring.size - ring.tail := by
  have hhead := head_eq_wrap h
  obtain ⟨h1, h2, h3, h4, h5, h6, h7, -⟩ := h
  unfold ready butilRingContiguousReadPtr
  dsimp only
  split_ifs <;> omega

/-- From the write pointer on there is no more room in one piece. -/
theorem writeRegion_longest (h : ring.WellFormed) :
    LongestRun (fun a => ¬ Live ring a) ring.size ring.head (room ring) := by
  have hhead := head_eq_wrap h
  have hroom := room_eq h
  have h2 := h.head_nonneg
  have h4 := h.tail_nonneg
  have h5 := h.tail_lt
  have h6 := h.count_nonneg
  have h7 := h.count_le
  refine LongestRun.of_stop h2 ?_ ?_ ?_ ?_
  · split_ifs at hroom <;> omega
  · split_ifs at hroom <;> omega
  · intro a hge hlt
    have hsize : a < ring.size := by split_ifs at hroom <;> omega
    rw [live_iff h (by omega) hsize]
    split_ifs at hroom <;> omega
  · intro hstop
    rw [not_not, live_iff h (by split_ifs at hroom <;> omega) hstop]
    split_ifs at hroom <;> omega

/-- From the read pointer on there is no more to be read in one piece. -/
theorem readRegion_longest (h : ring.WellFormed) :
    LongestRun (Live ring) ring.size ring.tail (ready ring) := by
  have hready := ready_eq h
  have h4 := h.tail_nonneg
  have h5 := h.tail_lt
  have h6 := h.count_nonneg
  have h7 := h.count_le
  refine LongestRun.of_stop h4 ?_ ?_ ?_ ?_
  · split_ifs at hready <;> omega
  · split_ifs at hready <;> omega
  · intro a hge hlt
    have hsize : a < ring.size := by split_ifs at hready <;> omega
    rw [live_iff h (by omega) hsize]
    split_ifs at hready <;> omega
  · intro hstop
    rw [live_iff h (by split_ifs at hready <;> omega) hstop]
    split_ifs at hready <;> omega

/-- Two regions are all the room there is. -/
theorem fill_exhausts (h : ring.WellFormed) (first second : List UInt8)
    (hfirst : first.length = room ring) (hsecond : second.length = room (ringProduce ring first)) :
    room ring + room (ringProduce ring first) = ring.size - ring.count ∧
      room (ringProduce (ringProduce ring first) second) = 0 := by
  have hwf := (ringProduce_spec h hfirst.le).1
  have hwf' := (ringProduce_spec hwf hsecond.le).1
  have hhead := head_eq_wrap h
  have hhead' := head_eq_wrap hwf
  have hhead'' := head_eq_wrap hwf'
  have hroom := room_eq h
  have hroom' := room_eq hwf
  have hroom'' := room_eq hwf'
  simp only [ringProduce_tail, ringProduce_count, ringProduce_size] at *
  have h4 := h.tail_nonneg
  have h5 := h.tail_lt
  have h6 := h.count_nonneg
  have h7 := h.count_le
  have hsum : room ring + room (ringProduce ring first) = ring.size - ring.count := by
    split_ifs at hroom hroom' <;> omega
  refine ⟨hsum, ?_⟩
  split_ifs at hroom'' <;> omega

/-- A ring that is reset has nothing to be read. -/
theorem ready_reset : ready (butilResetRing ring) = 0 := rfl

/-- The first region up to the end of the array has been taken, and live bytes are left. -/
theorem ringConsume_wrap (h : ring.WellFormed) (hwrap : ring.size < ring.tail + ring.count) :
    (ringConsume ring (ring.size - ring.tail)).count = ring.tail + ring.count - ring.size ∧
      ready (ringConsume ring (ring.size - ring.tail)) = ring.tail + ring.count - ring.size := by
  have hhead := head_eq_wrap h
  have hring : ringConsume ring (ring.size - ring.tail) =
      { ring with count := ring.count - (ring.size - ring.tail), tail := 0 } := by
    unfold ringConsume
    dsimp only
    rw [if_neg (by omega), if_pos (by omega)]
  rw [hring]
  refine ⟨by dsimp only; omega, ?_⟩
  unfold ready butilRingContiguousReadPtr
  dsimp only
  rw [if_pos (by omega)]
  omega

/-- Two regions are all the bytes there are. -/
theorem drain_exhausts (h : ring.WellFormed) :
    ready ring + ready (ringConsume ring (ready ring)) = ring.count ∧
      ready (ringConsume (ringConsume ring (ready ring))
        (ready (ringConsume ring (ready ring)))) = 0 := by
  have hready := ready_eq h
  by_cases hwrap : ring.size < ring.tail + ring.count
  · have hfirst : ready ring = ring.size - ring.tail := by
      rw [hready, if_neg (by omega)]
    obtain ⟨hcount, hrest⟩ := ringConsume_wrap h hwrap
    rw [hfirst, hrest, ringConsume_all hcount]
    exact ⟨by omega, ready_reset⟩
  · have hfirst : ready ring = ring.count := by
      split_ifs at hready <;> omega
    rw [hfirst, ringConsume_all rfl, ready_reset, ringConsume_all (butilResetRing_count ring)]
    exact ⟨by omega, ready_reset⟩

/-- **The contiguous regions are exact**: the longest runs of their kind, and two of them use
up the ring. -/
theorem regions_exact (h : ring.WellFormed) : RegionsExact ring where
  writeRegion := writeRegion_longest h
  writeStart := rfl
  writeFull := by
    intro hnone
    have hhead := head_eq_wrap h
    have hroom := room_eq h
    have h5 := h.tail_lt
    have h7 := h.count_le
    split_ifs at hroom <;> omega
  readRegion := readRegion_longest h
  readStart := rfl
  readEmpty := by
    intro hnone
    have hready := ready_eq h
    have h5 := h.tail_lt
    split_ifs at hready <;> omega
  fill := fill_exhausts h
  drain := drain_exhausts h

/-- A ring of five bytes with four of them live, the last two at the beginning of the array. -/
theorem regions_exact_wrapped : RegionsExact ⟨2, 3, 4, 5, fun _ => 0⟩ :=
  regions_exact ⟨by decide, by decide, by decide, by decide, by decide, by decide, by decide,
    by decide⟩

end Regions

end SmbProxy.Analysis
