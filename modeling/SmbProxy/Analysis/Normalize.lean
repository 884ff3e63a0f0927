import SmbProxy.Analysis.RingQueue
import SmbProxy.Interface.Normalize

/-!
# When the two ways to normalise agree

Both bring the queue to the start of the array (`withTemp_spec`, `butilNormalizeRing_spec`).
The rotation lowers `head` modulo the size, the moves through the scratch buffer set it to
`count`, which is one past the array if the ring is full. So the two agree but for a full
ring that does not start at 0 (`normalizes_alike_iff`).
-/

set_option autoImplicit false

namespace SmbProxy.Analysis

open SmbProxy.Library SmbProxy.Model SmbProxy.Interface

section Normalize

variable {ring r r' : Ioring} {temp : ℤ → UInt8}

/-! ## Rings with the same counters -/

/-- A ring is well formed by its counters alone. -/
theorem wellFormed_of_sameCounters (h : SameCounters r r') (hwf : r'.WellFormed) : r.WellFormed := by
  obtain ⟨hhead, htail, hcount, hsize⟩ := h
  obtain ⟨h1, h2, h3, h4, h5, h6, h7, h8⟩ := hwf
  constructor
  · rwa [hsize]
  · rwa [hhead]
  · rwa [hhead, hsize]
  · rwa [htail]
  · rwa [htail, hsize]
  · rwa [hcount]
  · rwa [hcount, hsize]
  · rwa [hhead, htail, hcount, hsize]

/-- The room after a take is a matter of the counters. -/
theorem roomAfter_of_sameCounters (h : SameCounters r r') (n : ℕ) : roomAfter r n = roomAfter r' n := by
  obtain ⟨hhead, htail, hcount, hsize⟩ := h
  have hconsume : ∀ ring : Ioring, roomAfter ring n =
      if ring.count - n = 0 then (if 0 < ring.size then ring.size else 0)
      else
        let tail := if ring.tail + n ≥ ring.size then 0 else ring.tail + n
        if ring.head < tail then tail - ring.head
        else if ring.count - n < ring.size then ring.size - ring.head else 0 := by
    intro ring
    unfold roomAfter ringConsume
    dsimp only
    by_cases hempty : ring.count - n = 0
    · rw [if_pos hempty, if_pos hempty]
      simp [butilRingContiguousWritePtr, butilResetRing]
    · rw [if_neg hempty, if_neg hempty]
      rfl
  rw [hconsume, hconsume, hhead, htail, hcount, hsize]

/-! ## In place -/

/-- A ring is as large as it was when it is normalised. -/
theorem butilNormalizeRing_size (ring : Ioring) :
    (butilNormalizeRing ring none).size = ring.size := by
  have hrotate : ∀ (n : ℕ) (c : Ioring → Bool) (fuel : ℕ) (r : Ioring), r.size = ring.size →
      (whileLoop c (rotateBody n) fuel r).size = ring.size := by
    intro n c fuel r hr
    have hstep : ∀ r : Ioring, c r = true → r.size = ring.size →
        (rotateBody n r).size = ring.size := fun _ _ hr => hr
    exact whileLoop_keeps _ hstep fuel hr
  unfold butilNormalizeRing
  split_ifs
  · rfl
  · rfl
  · rfl
  · exact hrotate 1 _ _ _ (hrotate 4 _ _ _ rfl)

/-- The rotation leaves `head` behind the queue, modulo the size. -/
theorem inPlace_spec (h : ring.WellFormed) :
    (butilNormalizeRing ring none).tail = 0 ∧ (butilNormalizeRing ring none).count = ring.count ∧
      (butilNormalizeRing ring none).head = ring.count % ring.size := by
  obtain ⟨hwf, hcontents, htail⟩ := butilNormalizeRing_spec h
  have hcount : (butilNormalizeRing ring none).count = ring.count := by
    have hlength := congrArg List.length hcontents
    unfold Ioring.contents at hlength
    rw [cyclicWindow_length, cyclicWindow_length] at hlength
    have hnonneg := hwf.count_nonneg
    have hnonneg' := h.count_nonneg
    omega
  refine ⟨htail, hcount, ?_⟩
  rw [hwf.head_eq, htail, hcount, butilNormalizeRing_size, zero_add]

/-! ## Through the scratch buffer -/

/-- The three block moves put the wrapped queue at the start of the array. -/
theorem blockMoves_contents (h : ring.WellFormed) :
    cyclicWindow
        (store (moveCells ring.data 0 ring.tail (ring.size - ring.tail)) (ring.size - ring.tail)
          (window (store temp 0 (window ring.data 0 ring.head.toNat)) 0 ring.head.toNat))
        ring.size 0 ring.count.toNat = ring.contents := by
  have hhead := head_eq_wrap h
  have hcells := @cell_eq_wrap ring h
  obtain ⟨h1, h2, h3, h4, h5, h6, h7, -⟩ := h
  have htemp := window_store_self temp 0 (window ring.data 0 ring.head.toNat)
  rw [window_length] at htemp
  rw [htemp, cyclicWindow_eq_window _ le_rfl (by omega)]
  apply List.map_congr_left
  intro i hi
  rw [List.mem_range] at hi
  rw [zero_add]
  have hcell := hcells (show (0 : ℤ) ≤ i by omega) (by omega)
  by_cases hlow : (i : ℤ) < ring.size - ring.tail
  · have hplace : ring.tail + ((i : ℤ) - 0) = (ring.tail + i) % ring.size := by omega
    rw [store_of_lt _ _ hlow]
    simp only [moveCells]
    rw [if_pos (by omega), hplace]
  · obtain ⟨k, hk⟩ : ∃ k : ℕ, (i : ℤ) = ring.size - ring.tail + k :=
      ⟨(i - (ring.size - ring.tail)).toNat, by omega⟩
    have hin : k < (window ring.data 0 ring.head.toNat).length := by
      rw [window_length]
      omega
    have hplace : (0 : ℤ) + k = (ring.tail + (ring.size - ring.tail + k)) % ring.size := by
      rw [← hk]
      omega
    rw [hk, store_inside _ _ _ k hin, getElem_window, hplace]

/-- The moves through the scratch buffer leave `head` at `count`. -/
theorem withTemp_spec (h : ring.WellFormed) (htail : ring.tail ≠ 0) :
    (butilNormalizeRing ring (some temp)).head = ring.count ∧
      (butilNormalizeRing ring (some temp)).tail = 0 ∧
      (butilNormalizeRing ring (some temp)).count = ring.count ∧
      (butilNormalizeRing ring (some temp)).size = ring.size ∧
      (butilNormalizeRing ring (some temp)).contents = ring.contents := by
  unfold butilNormalizeRing
  rw [if_neg htail]
  by_cases hcount : ring.count = 0
  · rw [if_pos hcount]
    exact ⟨hcount.symm, rfl, rfl, rfl, by simp [Ioring.contents, hcount]⟩
  rw [if_neg hcount]
  by_cases hlt : ring.tail < ring.head
  · rw [if_pos hlt]
    exact ⟨rfl, rfl, rfl, rfl, (moveDown_spec h hlt).2⟩
  · rw [if_neg hlt]
    exact ⟨rfl, rfl, rfl, rfl, blockMoves_contents h⟩

/-! ## Both -/

/-- The counters agree but for `head`, and `head` unless the ring is full. -/
theorem sameCounters_of_not_full (h : ring.WellFormed) (hroom : ring.tail = 0 ∨ ring.count < ring.size) :
    SameCounters (butilNormalizeRing ring (some temp)) (butilNormalizeRing ring none) := by
  by_cases htail : ring.tail = 0
  · rw [butilNormalizeRing_of_tail_zero htail, butilNormalizeRing_of_tail_zero htail]
    exact ⟨rfl, rfl, rfl, rfl⟩
  · have hlt : ring.count < ring.size := hroom.resolve_left htail
    obtain ⟨hhead, htail', hcount, hsize, -⟩ := @withTemp_spec ring temp h htail
    obtain ⟨htail'', hcount', hhead'⟩ := inPlace_spec h
    constructor
    · rw [hhead, hhead', Int.emod_eq_of_lt h.count_nonneg hlt]
    · rw [htail', htail'']
    · rw [hcount, hcount']
    · rw [hsize, butilNormalizeRing_size]

/-- It has the same bytes. -/
theorem contents_withTemp (h : ring.WellFormed) :
    (butilNormalizeRing ring (some temp)).contents = ring.contents := by
  by_cases htail : ring.tail = 0
  · rw [butilNormalizeRing_of_tail_zero htail]
  · exact (withTemp_spec h htail).2.2.2.2

/-- **The two ways agree** iff the ring starts at 0 or is not full. -/
theorem normalizes_alike_iff (ring : Ioring) (temp : ℤ → UInt8) (h : ring.WellFormed) :
    NormalizesAlike ring temp ↔ ring.tail = 0 ∨ ring.count < ring.size := by
  obtain ⟨hwf, hcontents, -⟩ := butilNormalizeRing_spec h
  constructor
  · intro halike
    by_cases htail : ring.tail = 0
    · exact Or.inl htail
    · have hhead := halike.withTemp.head_lt
      obtain ⟨hcount, -, -, hsize, -⟩ := @withTemp_spec ring temp h htail
      rw [hcount, hsize] at hhead
      exact Or.inr hhead
  · intro hroom
    have hsame := @sameCounters_of_not_full ring temp h hroom
    refine ⟨hsame, ?_, wellFormed_of_sameCounters hsame hwf, hwf, fun n _ => ?_⟩
    · rw [contents_withTemp h, hcontents]
    · exact roomAfter_of_sameCounters hsame n

/-- A wrapped ring of six bytes. -/
theorem normalizes_alike_iff_wrapped :
    NormalizesAlike ⟨2, 5, 3, 6, fun a => UInt8.ofNat a.toNat⟩ (fun _ => 0) :=
  (normalizes_alike_iff ⟨2, 5, 3, 6, fun a => UInt8.ofNat a.toNat⟩ (fun _ => 0)
    ⟨by simp, by simp, by simp, by simp, by simp, by simp, by simp, by simp⟩).mpr (Or.inr (by simp))

/-- A full ring of two bytes that starts at 1 gets a `head` of 2. -/
theorem not_normalizes_alike_full :
    ¬ ∀ (ring : Ioring) (temp : ℤ → UInt8), ring.WellFormed → NormalizesAlike ring temp := by
  intro h
  have halike := h ⟨1, 1, 2, 2, fun _ => 0⟩ (fun _ => 0)
    ⟨by simp, by simp, by simp, by simp, by simp, by simp, by simp, by simp⟩
  have hhead := halike.withTemp.head_lt
  simp [butilNormalizeRing] at hhead

end Normalize

end SmbProxy.Analysis
