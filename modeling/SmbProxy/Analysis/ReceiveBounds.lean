import SmbProxy.Analysis.ProxyRun

/-!
# Every receive is in bounds

At the read of a half its ring holds at most what the half waits for, so the number of
bytes asked for is not negative, and the room that was checked is inside the ring. The
half has set what it waits for back to a header before it writes: while it writes, and
when that fails, its ring holds more than that (`count_above_remain`), but there is no
read before the ring is reset.
-/

set_option autoImplicit false

namespace SmbProxy.Analysis

open SmbProxy.Library SmbProxy.Model SmbProxy.Interface

/-- A half that waits receives inside its ring. -/
theorem receiveInBounds_of_waiting {half : Half} (h : half.Waiting) (hsize : 8 ≤ half.ring.size) :
    ReceiveInBounds half := by
  have hroom := writePtr_of_atStart h.ring
  have hptr : (butilRingContiguousWritePtr half.ring).ptr = half.ring.head := rfl
  have hchunk : half.chunk = half.packetRemain - half.ring.count := rfl
  have hcount := h.count_le
  have hnonneg := h.ring.count_nonneg
  have hhead := h.ring.head_eq
  constructor
  · omega
  · intro henough
    omega
  · intro hstate
    have hremain := h.header hstate
    omega

/-- Where nothing is being written, the ring has no more than the half waits for. -/
theorem count_le_of_flow {c : Conn} {side : Side}
    (h : Flow c.passthrough (c.half side) (c.socket side).rx (c.socket side.peer).tx
      (c.judged side) (phaseOf side c.pc))
    (hwriting : ¬ c.Writing side) (hfailed : ¬ c.WriteFailed side) :
    (c.half side).ring.count ≤ (c.half side).packetRemain := by
  generalize hphase : phaseOf side c.pc = phase at h
  cases h with
  | waiting hwaiting => exact hwaiting.count_le
  | left _ _ hwaiting => exact hwaiting.count_le
  | rejected hwaiting => exact hwaiting.count_le
  | writing => exact absurd ⟨_, _, _, writing_of_phaseOf hphase⟩ hwriting
  | writeFailed => exact absurd (left_of_phaseOf hphase) hfailed

/-- **Behind a block that has been sent the ring is empty.** -/
theorem count_zero_of_written {packet : Bool → (ℤ → UInt8) → ℤ → ℤ} {c : Conn} (h : Flows c)
    {side : Side} {ioptr chunk sent : ℤ} (hpc : c.pc = .write side ioptr chunk sent)
    {event : WriteEvent} (hdone : (step packet c (.write event)).pc = .read side.peer) :
    ((step packet c (.write event)).half side).ring.count = 0 := by
  have hstep : step packet c (.write event) = c.writeStep side ioptr chunk sent event := by
    simp only [step, hpc]
  have hwriting : phaseOf side c.pc = .writing ioptr chunk sent := by
    rw [hpc]
    exact if_pos rfl
  have hflow := h side
  rw [hwriting] at hflow
  obtain ⟨-, hreset⟩ := flow_halfWrite event hflow rfl
  rw [hstep] at hdone ⊢
  unfold Conn.writeStep at hdone ⊢
  simp only [Function.update_self] at hdone ⊢
  cases hnext : (halfWrite (c.half side) ioptr chunk sent event).next with
  | more sent' =>
      rw [hnext] at hdone
      cases hdone
  | done =>
      rw [hreset hnext]
      rfl
  | leave result =>
      rw [hnext] at hdone
      cases hdone

/-- **Receives in bounds over every run**, with rings of eight bytes or more. -/
theorem receives_in_bounds (packet : Bool → (ℤ → UInt8) → ℤ → ℤ) (size : ℤ) (hsize : 8 ≤ size)
    (data : Side → ℤ → UInt8) (inputs : List Input) (side : Side) :
    let c := run (step packet) (Conn.init size data) inputs
    (c.half side).ring.size = size ∧ (c.half side).ring.AtStart ∧
      (¬ c.Writing side → ¬ c.WriteFailed side →
        (c.half side).ring.count ≤ (c.half side).packetRemain) ∧
      (c.pc = .read side → ReceiveInBounds (c.half side)) ∧
      ∀ event ioptr chunk sent, c.pc = .write side ioptr chunk sent →
        (step packet c (.write event)).pc = .read side.peer →
        ((step packet c (.write event)).half side).ring.count = 0 := by
  intro c
  have hflows : Flows c := run_flows packet (by omega) data inputs
  have hring : (c.half side).ring.size = size := run_size packet (by omega) data inputs side
  refine ⟨hring, flow_atStart (hflows side), count_le_of_flow (hflows side), ?_, ?_⟩
  · intro hpc
    exact receiveInBounds_of_waiting (waiting_of_flows hflows hpc side) (by omega)
  · intro event ioptr chunk sent hpc hdone
    exact count_zero_of_written hflows hpc hdone

/-- An empty frame is received in two parts in a ring of eight bytes, and sent. -/
theorem receives_in_bounds_frame :
    let inputs : List Input :=
      [.start true, .read (.ready [0, 0]), .read .timeout, .read (.ready [0, 0]), .read .timeout,
        .read .timeout, .write (.sent 4)]
    let c := run (step fun _ _ _ => 0) (Conn.init 8 fun _ _ => 0) inputs
    (c.half .client).ring.AtStart ∧ (c.half .client).ring.size = 8 := by
  intro inputs c
  have h := receives_in_bounds (fun _ _ _ => 0) 8 (by decide) (fun _ _ => 0) inputs .client
  exact ⟨h.2.1, h.1⟩

/-- **The ring can hold more than what its half waits for**: five bytes are left in it when
their `send` fails, and the half already waits for the four of a header. -/
theorem count_above_remain :
    ¬ ∀ (packet : Bool → (ℤ → UInt8) → ℤ → ℤ) (size : ℤ), 8 ≤ size →
      ∀ (data : Side → ℤ → UInt8) (inputs : List Input) (side : Side),
        let c := run (step packet) (Conn.init size data) inputs
        (c.half side).ring.count ≤ (c.half side).packetRemain := by
  intro h
  have hfailed := h (fun _ _ _ => 0) 16 (by decide) (fun _ _ => 0)
    [.start true, .read (.ready [0, 0, 0, 1]), .read .timeout, .read (.ready [0xAA]),
      .write .sendFailed] .client
  exact absurd hfailed (by decide +kernel)

end SmbProxy.Analysis
