import SmbProxy.Interface.RingQueue
import Mathlib.Tactic.SplitIfs

/-!
# The ring is a first-in first-out queue

Every operation keeps a ring well formed and does to its contents what the abstract
queue does: `ringProduce_spec`, `ringConsume_spec`, `butilNormalizeRing_spec`. The
in-place path of `butil_normalize_ring` is two loops around `rotateBody`; one pass
rotates the whole array by `n` cells and lowers `tail` by `n`, so it moves no live byte
to another place of the queue (`rotateBody_spec`). `ring_refines_queue` is the run.
-/

set_option autoImplicit false

namespace SmbProxy.Analysis

open SmbProxy.Library SmbProxy.Model SmbProxy.Interface

/-! ## The counters without the modulus -/

/-- In a well-formed ring `head` is behind `tail` by `count`, with at most one wrap. -/
theorem head_eq_wrap {ring : Ioring} (h : ring.WellFormed) :
    ring.tail + ring.count < ring.size ∧ ring.head = ring.tail + ring.count ∨
      ring.size ≤ ring.tail + ring.count ∧ ring.head = ring.tail + ring.count - ring.size := by
  obtain ⟨h1, h2, h3, h4, h5, h6, h7, h8⟩ := h
  rw [h8]
  exact emod_eq_wrap (by omega) (by omega)

/-- A ring is well formed, if its head is behind its bytes, on this round or the next. -/
theorem wellFormed_of_wrap {ring : Ioring} (hs : 1 ≤ ring.size) (ht : 0 ≤ ring.tail)
    (ht' : ring.tail < ring.size) (hc : 0 ≤ ring.count) (hc' : ring.count ≤ ring.size)
    (hh : ring.tail + ring.count < ring.size ∧ ring.head = ring.tail + ring.count ∨
      ring.size ≤ ring.tail + ring.count ∧ ring.head = ring.tail + ring.count - ring.size) :
    ring.WellFormed := by
  have hmod := @emod_eq_wrap (ring.tail + ring.count) ring.size (by omega) (by omega)
  exact ⟨hs, by omega, by omega, ht, ht', hc, hc', by omega⟩

/-- The cell of a byte is in this round, or in the next. -/
theorem cell_eq_wrap {ring : Ioring} (h : ring.WellFormed) {i : ℤ} (h0 : 0 ≤ i)
    (hi : i ≤ ring.size) :
    ring.tail + i < ring.size ∧ (ring.tail + i) % ring.size = ring.tail + i ∨
      ring.size ≤ ring.tail + i ∧ (ring.tail + i) % ring.size = ring.tail + i - ring.size := by
  have := h.tail_nonneg
  have := h.tail_lt
  exact emod_eq_wrap (by omega) (by omega)

/-- A ring that is reset is the empty queue. -/
theorem butilResetRing_spec {ring : Ioring} (h : 1 ≤ ring.size) :
    (butilResetRing ring).WellFormed ∧ (butilResetRing ring).contents = [] := by
  refine ⟨wellFormed_of_wrap ?_ ?_ ?_ ?_ ?_ ?_, rfl⟩ <;> simp <;> omega

/-! ## Produce and consume -/

/-- The room reported at the write pointer is inside the array and free. -/
theorem writePtr_le {ring : Ioring} (h : ring.WellFormed) :
    0 ≤ (butilRingContiguousWritePtr ring).bytes ∧
      ring.head + (butilRingContiguousWritePtr ring).bytes ≤ ring.size ∧
      ring.count + (butilRingContiguousWritePtr ring).bytes ≤ ring.size := by
  have hh := head_eq_wrap h
  obtain ⟨h1, h2, h3, h4, h5, h6, h7, -⟩ := h
  unfold butilRingContiguousWritePtr
  dsimp only
  split_ifs <;> omega

/-- The run reported at the read pointer is inside the array and live. -/
theorem readPtr_le {ring : Ioring} (h : ring.WellFormed) :
    0 ≤ (butilRingContiguousReadPtr ring).bytes ∧
      ring.tail + (butilRingContiguousReadPtr ring).bytes ≤ ring.size ∧
      (butilRingContiguousReadPtr ring).bytes ≤ ring.count := by
  have hh := head_eq_wrap h
  obtain ⟨h1, h2, h3, h4, h5, h6, h7, -⟩ := h
  unfold butilRingContiguousReadPtr
  dsimp only
  split_ifs <;> omega

/-- The cells of the bytes are not among those that can be written. -/
theorem cell_outside_writePtr {ring : Ioring} (h : ring.WellFormed) {n : ℤ}
    (hn : n ≤ (butilRingContiguousWritePtr ring).bytes) {i : ℕ} (hi : i < ring.count) :
    (ring.tail + i) % ring.size < ring.head ∨ ring.head + n ≤ (ring.tail + i) % ring.size := by
  have hh := head_eq_wrap h
  have hc := cell_eq_wrap h (i := i) (by omega) (by have := h.count_le; omega)
  obtain ⟨h1, h2, h3, h4, h5, h6, h7, -⟩ := h
  unfold butilRingContiguousWritePtr at hn
  dsimp only at hn
  split_ifs at hn <;> omega

/-- **Produce appends.** -/
theorem ringProduce_spec {ring : Ioring} (h : ring.WellFormed) {bytes : List UInt8}
    (hb : bytes.length ≤ (butilRingContiguousWritePtr ring).bytes) :
    (ringProduce ring bytes).WellFormed ∧
      (ringProduce ring bytes).contents = ring.contents ++ bytes := by
  obtain ⟨-, hend, hroom⟩ := writePtr_le h
  constructor
  · have hh := head_eq_wrap h
    have hhead := ringProduce_head ring bytes
    obtain ⟨h1, h2, h3, h4, h5, h6, h7, -⟩ := h
    refine wellFormed_of_wrap ?_ ?_ ?_ ?_ ?_ ?_ <;>
      simp only [ringProduce_size, ringProduce_tail, ringProduce_count]
    · exact h1
    · exact h4
    · exact h5
    · omega
    · omega
    · split_ifs at hhead <;> omega
  · have hcount : (ring.count + bytes.length).toNat = ring.count.toNat + bytes.length := by
      have := h.count_nonneg
      omega
    have hhead : (ring.tail + (ring.count.toNat : ℤ)) % ring.size = ring.head := by
      rw [h.head_eq, Int.toNat_of_nonneg h.count_nonneg]
    unfold Ioring.contents
    rw [ringProduce_count, ringProduce_size, ringProduce_tail, ringProduce_data, hcount,
      cyclicWindow_add]
    congr 1
    · apply cyclicWindow_congr
      intro i hi
      cases cell_outside_writePtr h hb (i := i) (by omega) with
      | inl hlt => exact store_of_lt _ _ hlt
      | inr hge => exact store_of_ge _ _ hge
    · rw [← cyclicWindow_emod, hhead, cyclicWindow_eq_window _ h.head_nonneg (by omega)]
      exact window_store_self _ _ _

/-- **Consume drops from the front.** -/
theorem ringConsume_spec {ring : Ioring} (h : ring.WellFormed) {n : ℕ}
    (hn : n ≤ (butilRingContiguousReadPtr ring).bytes) :
    (ringConsume ring n).WellFormed ∧
      (ringConsume ring n).contents = ring.contents.drop n := by
  obtain ⟨-, hend, hlive⟩ := readPtr_le h
  have hsplit : ring.count.toNat = n + (ring.count - n).toNat := by omega
  have hdrop : ring.contents.drop n =
      cyclicWindow ring.data ring.size (ring.tail + n) (ring.count - n).toNat := by
    unfold Ioring.contents
    rw [hsplit, cyclicWindow_add, List.drop_left' (cyclicWindow_length _ _ _ _)]
  rw [hdrop]
  by_cases hempty : ring.count = n
  · rw [ringConsume_all hempty, hempty, Int.sub_self]
    exact butilResetRing_spec h.size_pos
  · have hring : ringConsume ring n =
        { ring with
          count := ring.count - n
          tail := if ring.tail + n ≥ ring.size then 0 else ring.tail + n } := by
      unfold ringConsume
      dsimp only
      rw [if_neg (by omega)]
    have hmod : (ring.tail + n) % ring.size =
        if ring.tail + n ≥ ring.size then 0 else ring.tail + n := by
      have := cell_eq_wrap h (i := n) (by omega) (by have := h.count_le; omega)
      split_ifs <;> omega
    have hh := head_eq_wrap h
    rw [hring]
    constructor
    · obtain ⟨h1, h2, h3, h4, h5, h6, h7, -⟩ := h
      refine wellFormed_of_wrap ?_ ?_ ?_ ?_ ?_ ?_ <;> dsimp only
      · exact h1
      · split_ifs <;> omega
      · split_ifs <;> omega
      · omega
      · omega
      · split_ifs <;> omega
    · unfold Ioring.contents
      rw [← hmod, cyclicWindow_emod]

/-! ## Normalise -/

/-- One rotation pass moves the cell `n` places up the circle to every place. -/
theorem rotateBody_data {n : ℕ} {ring : Ioring} (hn : n ≤ ring.size) {a : ℤ} (h0 : 0 ≤ a)
    (ha : a < ring.size) :
    (rotateBody n ring).data a = ring.data ((a + n) % ring.size) := by
  have hmod := @emod_eq_wrap (a + n) ring.size (by omega) (by omega)
  simp only [rotateBody]
  by_cases hlt : a < ring.size - n
  · rw [store_of_lt _ _ hlt]
    have hcell : (n : ℤ) + (a - 0) = (a + n) % ring.size := by omega
    simp only [moveCells]
    rw [if_pos (by omega), hcell]
  · obtain ⟨i, hi⟩ : ∃ i : ℕ, a = ring.size - n + i := ⟨(a - (ring.size - n)).toNat, by omega⟩
    have hin : i < (window ring.data 0 n).length := by
      rw [window_length]
      omega
    have hcell : (0 : ℤ) + i = (ring.size - n + i + n) % ring.size := by rw [← hi]; omega
    rw [hi, store_inside _ _ _ i hin, getElem_window, hcell]

/-- **A rotation pass below `tail` moves no byte of the queue.** -/
theorem rotateBody_spec {n : ℕ} {ring : Ioring} (h : ring.WellFormed) (hn : n ≤ ring.tail) :
    (rotateBody n ring).WellFormed ∧ (rotateBody n ring).contents = ring.contents := by
  have hsize : (n : ℤ) ≤ ring.size := by
    have := h.tail_lt
    omega
  constructor
  · have hh := head_eq_wrap h
    have hhead := rotateBody_head n ring
    obtain ⟨h1, h2, h3, h4, h5, h6, h7, -⟩ := h
    refine wellFormed_of_wrap ?_ ?_ ?_ ?_ ?_ ?_ <;>
      simp only [rotateBody_size, rotateBody_tail, rotateBody_count]
    · exact h1
    · omega
    · omega
    · exact h6
    · exact h7
    · split_ifs at hhead <;> omega
  · unfold Ioring.contents cyclicWindow
    rw [rotateBody_count, rotateBody_size, rotateBody_tail]
    apply List.map_congr_left
    intro i _
    have hpos : 0 < ring.size := h.size_pos
    rw [rotateBody_data hsize (Int.emod_nonneg _ hpos.ne') (Int.emod_lt_of_pos _ hpos),
      Int.emod_add_emod]
    congr 2
    ring

/-- What the two rotation loops keep: the queue and the size. -/
def RotateInv (ring r : Ioring) : Prop :=
  r.WellFormed ∧ r.contents = ring.contents ∧ r.count = ring.count

/-- A loop of rotations keeps the bytes, and ends where its condition fails. -/
theorem rotateLoop_spec {ring r : Ioring} {n : ℕ} (c : Ioring → Bool) (hpos : 0 < n)
    (hc : ∀ r, c r = true → n ≤ r.tail) (hr : RotateInv ring r) :
    RotateInv ring (whileLoop c (rotateBody n) r.tail.toNat r) ∧
      c (whileLoop c (rotateBody n) r.tail.toNat r) = false := by
  refine while_rule (RotateInv ring) (fun r => r.tail.toNat) ?_ r.tail.toNat hr le_rfl
  rintro r ⟨hwf, hcontents, hcount⟩ hcr
  have hn := hc r hcr
  obtain ⟨hwf', hcontents'⟩ := rotateBody_spec hwf hn
  have hkept : (rotateBody n r).contents = ring.contents := calc
    (rotateBody n r).contents = r.contents := hcontents'
    _ = ring.contents := hcontents
  refine ⟨⟨hwf', hkept, hcount⟩, ?_⟩
  rw [rotateBody_tail]
  omega

/-- Bytes in one piece are moved down to the start of the array. -/
theorem moveDown_spec {ring : Ioring} (h : ring.WellFormed) (htail : ring.tail < ring.head) :
    let moved : Ioring :=
      { ring with
        data := moveCells ring.data 0 ring.tail ring.count
        tail := 0
        head := ring.count }
    moved.WellFormed ∧ moved.contents = ring.contents := by
  intro moved
  have hh := head_eq_wrap h
  obtain ⟨h1, h2, h3, h4, h5, h6, h7, -⟩ := h
  constructor
  · refine wellFormed_of_wrap ?_ ?_ ?_ ?_ ?_ ?_ <;> dsimp only [moved] <;> omega
  · unfold Ioring.contents
    dsimp only [moved]
    rw [cyclicWindow_eq_window _ le_rfl (by omega), cyclicWindow_eq_window _ h4 (by omega)]
    apply List.map_congr_left
    intro i hi
    rw [List.mem_range] at hi
    simp only [moveCells]
    rw [if_pos (by omega)]
    congr 1
    omega

/-- **Normalise keeps the queue and brings it to the start of the array.** -/
theorem butilNormalizeRing_spec {ring : Ioring} (h : ring.WellFormed) :
    (butilNormalizeRing ring none).WellFormed ∧
      (butilNormalizeRing ring none).contents = ring.contents ∧
      (butilNormalizeRing ring none).tail = 0 := by
  by_cases htail : ring.tail = 0
  · rw [butilNormalizeRing_of_tail_zero htail]
    exact ⟨h, rfl, htail⟩
  unfold butilNormalizeRing
  rw [if_neg htail]
  by_cases hcount : ring.count = 0
  · rw [if_pos hcount]
    refine ⟨?_, by simp [Ioring.contents, hcount], rfl⟩
    have := h.size_pos
    refine wellFormed_of_wrap ?_ ?_ ?_ ?_ ?_ ?_ <;> dsimp only <;> omega
  rw [if_neg hcount]
  by_cases hlt : ring.tail < ring.head
  · rw [if_pos hlt]
    obtain ⟨hwf, hcontents⟩ := moveDown_spec h hlt
    exact ⟨hwf, hcontents, rfl⟩
  · rw [if_neg hlt]
    dsimp only
    obtain ⟨hfour, -⟩ := rotateLoop_spec (fun r => decide (r.tail ≥ 4))
      (by omega : 0 < 4) (by simp) (⟨h, rfl, rfl⟩ : RotateInv ring ring)
    obtain ⟨hdone, hexit⟩ := rotateLoop_spec (fun r => decide (r.tail > 0))
      (by omega : 0 < 1) (by simp; omega) hfour
    refine ⟨hdone.1, hdone.2.1, ?_⟩
    have := hdone.1.tail_nonneg
    simp only [decide_eq_false_iff_not] at hexit
    omega

/-- From the start of the array all bytes can be read in one piece. -/
theorem readPtr_of_tail_zero {ring : Ioring} (h : ring.WellFormed) (htail : ring.tail = 0) :
    (butilRingContiguousReadPtr ring).bytes = ring.count := by
  have hh := head_eq_wrap h
  obtain ⟨h1, h2, h3, h4, h5, h6, h7, -⟩ := h
  unfold butilRingContiguousReadPtr
  dsimp only
  split_ifs <;> omega

/-! ## Runs -/

/-- **One operation.** The ring stays well formed and its contents take the queue's step. -/
theorem ringOp_refines {ring : Ioring} (h : ring.WellFormed) (op : RingOp)
    (hop : op.Allowed ring) :
    (op.onRing ring).WellFormed ∧ (op.onRing ring).contents = op.onQueue ring.contents := by
  cases op with
  | store bytes => exact ringProduce_spec h hop
  | take n => exact ringConsume_spec h hop
  | normalize => exact ⟨(butilNormalizeRing_spec h).1, (butilNormalizeRing_spec h).2.1⟩
  | reset => exact butilResetRing_spec h.size_pos

/-- **The ring refines the queue over every run.** From a reset ring of any size, any
sequence of operations that stays within the reported runs keeps the ring well formed
with the contents of the queue, and a normalise then makes the queue contiguous. -/
theorem ring_refines_queue (ring : Ioring) (hsize : 1 ≤ ring.size) (ops : List RingOp)
    (hops : Along RingOp.onRing (fun r op => op.Allowed r) (butilResetRing ring) ops) :
    let r := run RingOp.onRing (butilResetRing ring) ops
    r.WellFormed ∧ r.contents = run RingOp.onQueue [] ops ∧
      (butilNormalizeRing r none).tail = 0 ∧
      (butilRingContiguousReadPtr (butilNormalizeRing r none)).bytes =
        (butilNormalizeRing r none).count := by
  intro r
  obtain ⟨hwf, hcontents⟩ : r.WellFormed ∧ r.contents = run RingOp.onQueue [] ops := by
    refine run_simulation (fun s q => s.WellFormed ∧ s.contents = q) _ ?_
      (butilResetRing_spec hsize) hops
    rintro s q op ⟨hs, rfl⟩ hop
    exact ringOp_refines hs op hop
  obtain ⟨hnwf, -, hntail⟩ := butilNormalizeRing_spec hwf
  exact ⟨hwf, hcontents, hntail, readPtr_of_tail_zero hnwf hntail⟩

/-- A run that wraps in a ring of five bytes, normalises in place and goes on. -/
theorem ring_refines_queue_wrapped :
    let ring : Ioring := ⟨4, 2, 1, 5, fun _ => 0⟩
    let ops : List RingOp :=
      [.store [1, 2, 3, 4], .take 3, .store [5], .store [6, 7], .normalize, .take 2]
    (run RingOp.onRing (butilResetRing ring) ops).contents = [6, 7] ∧
      (run RingOp.onRing (butilResetRing ring) ops).WellFormed := by
  intro ring ops
  have h := ring_refines_queue ring (by decide) ops (by decide)
  exact ⟨h.2.1, h.1⟩

end SmbProxy.Analysis
