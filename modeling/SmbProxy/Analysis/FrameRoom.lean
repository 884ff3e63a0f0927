import SmbProxy.Analysis.ProxyRun

/-!
# When every admitted frame fits the ring

The room check of a half fails exactly when the half waits for more than its ring can
hold. It waits for a header, or for what a header has announced, so it never fails in a
run in which every header that is completed announces a frame that fits or one that is
refused (`frames_fit`). Any other header ends the connection at the next turn of its half
(`oversize_ends`). The limit of the length check does not see to it that there is none: it
admits lengths up to `0x1FFFFF`, the ring of `main` takes lengths up to `0x20004`
(`internalError_reached`).
-/

set_option autoImplicit false

namespace SmbProxy.Analysis

open SmbProxy.Library SmbProxy.Model SmbProxy.Interface

/-- What a half has received is what `tcp_read` has read. -/
theorem halfRead_received {packet : (ℤ → UInt8) → ℤ → ℤ} {passthrough : Bool} {half : Half}
    (h : half.Waiting) (hroom : half.packetRemain ≤ half.ring.size) (event : ReadEvent) :
    (halfRead packet passthrough half event).received = (tcpRead event half.chunk).1 := by
  rcases tcpRead_chunk_cases h event with hfail | ⟨bytes, hfit, hread⟩
  · rw [halfRead_of_failed h.ring hroom hfail, hfail]
  · rw [halfRead_of_read h.ring hroom hread, hread]
    obtain ⟨hring, -⟩ := received_atStart h hroom hfit
    by_cases hfull : half.ring.count + bytes.length = half.packetRemain
    · rw [if_pos hfull]
      by_cases hstate : half.packetState = .psHeader
      · rw [if_pos hstate, halfHeader]
        split_ifs <;> rfl
      · have hcount : (half.received bytes).ring.count = half.packetRemain := hfull
        have hbody := h.body hstate
        rw [if_neg hstate, halfBody_eq hring (by omega)]
        split_ifs <;> rfl
    · rw [if_neg hfull]

/-- A half that fits into its ring still fits after a read, unless the read completes a
header that does not; and it does not fail the room check. -/
theorem halfRead_fits {packet : (ℤ → UInt8) → ℤ → ℤ} {passthrough : Bool} {half : Half}
    (h : half.Waiting) (hsize : 4 ≤ half.ring.size) (hroom : half.packetRemain ≤ half.ring.size)
    (event : ReadEvent)
    (hheader : half.packetState = .psHeader →
      half.ring.count + ((tcpRead event half.chunk).1.length : ℤ) = half.packetRemain →
      half.headerWord (tcpRead event half.chunk).1 + 4 ≤ half.ring.size ∨
        0x1FFFFF < half.headerWord (tcpRead event half.chunk).1) :
    (halfRead packet passthrough half event).half.packetRemain ≤ half.ring.size ∧
      ∀ result, (halfRead packet passthrough half event).next ≠ .leave .internalError result := by
  have houtcome := @halfRead_outcome packet passthrough half h event
  rw [← @halfRead_received packet passthrough half h hroom event] at hheader
  generalize halfRead packet passthrough half event = s at houtcome hheader
  cases houtcome with
  | internalError hshort => omega
  | readFailed => exact ⟨hroom, fun _ hne => by cases hne⟩
  | more => exact ⟨hroom, fun _ hne => by cases hne⟩
  | invalidHeader => exact ⟨hroom, fun _ hne => by cases hne⟩
  | @header bytes _ hfull hstate hle =>
      refine ⟨?_, fun _ hne => by cases hne⟩
      have hword : half.headerWord bytes + 4 ≤ half.ring.size ∨
          0x1FFFFF < half.headerWord bytes := hheader hstate hfull
      show (half.headerWord bytes : ℤ) + 4 ≤ half.ring.size
      omega
  | rejected => exact ⟨hroom, fun _ hne => by cases hne⟩
  | forward => exact ⟨hsize, fun _ hne => by cases hne⟩

/-- The last connection did not end at a room check, and what either half waits for fits
into its ring. -/
structure Roomy (c : Conn) : Prop where
  flows : Flows c
  size : ∀ side, 4 ≤ (c.half side).ring.size
  room : ∀ side, (c.half side).packetRemain ≤ (c.half side).ring.size
  pc : ∀ side result, c.pc ≠ .idle (some ⟨side, .internalError, result⟩)

/-- What a half waits for still fits after a step, and its ring is as large as it was. -/
theorem roomy_half {packet : Bool → (ℤ → UInt8) → ℤ → ℤ} {c : Conn} {input : Input}
    (h : Roomy c) (hfits : HeaderFits c input) (side : Side) :
    ((step packet c input).half side).packetRemain ≤ (c.half side).ring.size ∧
      ((step packet c input).half side).ring.size = (c.half side).ring.size := by
  rcases step_half packet c input side with
    heq | heq | ⟨event, isclient, rfl, hpc, heq⟩ | ⟨event, ioptr, chunk, sent, -, heq⟩
  · rw [heq]
    exact ⟨h.room side, rfl⟩
  · rw [heq]
    exact ⟨h.size side, rfl⟩
  · have hwaiting := waiting_of_flows h.flows hpc side
    simp only [HeaderFits, hpc] at hfits
    rw [heq]
    exact ⟨(halfRead_fits hwaiting (h.size side) (h.room side) event hfits).1,
      halfRead_size hwaiting event⟩
  · obtain ⟨hsize, hremain⟩ := halfWrite_half (c.half side) ioptr chunk sent event
    rw [heq, hremain]
    exact ⟨h.room side, hsize⟩

/-- **One step keeps the room**, when the header it may complete fits. -/
theorem roomy_step {packet : Bool → (ℤ → UInt8) → ℤ → ℤ} {c : Conn} {input : Input}
    (h : Roomy c) (hfits : HeaderFits c input) : Roomy (step packet c input) := by
  refine ⟨flows_step packet h.flows input, ?_, ?_, ?_⟩
  · intro side
    rw [(roomy_half h hfits side).2]
    exact h.size side
  · intro side
    rw [(roomy_half h hfits side).2]
    exact (roomy_half h hfits side).1
  · intro side result
    have hkeep := h.pc side result
    unfold step
    cases input with
    | start passthrough =>
        cases hpc : c.pc with
        | idle last => exact fun hne => by cases hne
        | read side' => exact hkeep
        | write side' ioptr chunk sent => exact hkeep
    | read event =>
        cases hpc : c.pc with
        | idle last => exact hkeep
        | write side' ioptr chunk sent => exact hkeep
        | read side' =>
            obtain ⟨isclient, hhalf⟩ := sideHalf_eq packet side'
            have hwaiting := waiting_of_flows h.flows hpc side'
            simp only [HeaderFits, hpc] at hfits
            have hnext := (@halfRead_fits (packet isclient) c.passthrough (c.half side') hwaiting
              (h.size side') (h.room side') event hfits).2 result
            show (c.readStep packet side' event).pc ≠ _
            unfold Conn.readStep
            rw [hhalf]
            dsimp only
            generalize (halfRead (packet isclient) c.passthrough (c.half side') event).next = next
              at hnext
            cases next with
            | done => exact fun hne => by cases hne
            | write ioptr chunk => exact fun hne => by cases hne
            | leave why result' =>
                intro hne
                simp only [pcAfter, Pc.idle.injEq, Option.some.injEq, Ending.mk.injEq] at hne
                rw [hne.2.1, hne.2.2] at hnext
                exact hnext rfl
    | write event =>
        cases hpc : c.pc with
        | idle last => exact hkeep
        | read side' => exact hkeep
        | write side' ioptr chunk sent =>
            show (c.writeStep side' ioptr chunk sent event).pc ≠ _
            unfold Conn.writeStep
            dsimp only
            generalize (halfWrite (c.half side') ioptr chunk sent event).next = next
            cases next <;> exact fun hne => by cases hne

/-- Before the first connection there is room. -/
theorem roomy_init {size : ℤ} (h : 4 ≤ size) (data : Side → ℤ → UInt8) :
    Roomy (Conn.init size data) :=
  ⟨flows_init (by omega) data, fun _ => h, fun _ => h, fun _ _ hne => by cases hne⟩

/-- **No room check fails** in a run with the rings of `main` whose every step that
completes a header completes one that fits or is refused. -/
theorem frames_fit (packet : Bool → (ℤ → UInt8) → ℤ → ℤ) (data : Side → ℤ → UInt8)
    (inputs : List Input)
    (hfits : Along (step packet) HeaderFits (Conn.init iobufferSize data) inputs)
    (side : Side) (result : ℤ) :
    (run (step packet) (Conn.init iobufferSize data) inputs).pc ≠
      .idle (some ⟨side, .internalError, result⟩) :=
  (run_invariant_of HeaderFits Roomy (fun _ _ hc hinput => roomy_step hc hinput)
    (roomy_init (by decide) data) hfits).pc side result

/-- A run in which a frame of one byte comes in two parts. -/
theorem frames_fit_small :
    let inputs : List Input :=
      [.start true, .read (.ready [0, 0, 0, 1]), .read .timeout, .read (.ready [0xAA]),
        .write (.sent 5), .read .timeout]
    (run (step fun _ _ _ => 0) (Conn.init iobufferSize fun _ _ => 0) inputs).pc ≠
      .idle (some ⟨.client, .internalError, -1⟩) := by
  intro inputs
  exact frames_fit (fun _ _ _ => 0) (fun _ _ => 0) inputs (by decide +kernel) .client (-1)

/-- A half that waits for more than its ring holds. -/
structure Overfull (half : Half) : Prop where
  ring : half.ring.AtStart
  short : half.ring.size < half.packetRemain

/-- A header that announces more than fits and is not refused leaves its half overfull. -/
theorem overfull_of_header {packet : (ℤ → UInt8) → ℤ → ℤ} {passthrough : Bool} {half : Half}
    (h : half.Waiting) (hroom : half.packetRemain ≤ half.ring.size) {event : ReadEvent}
    {bytes : List UInt8} (hread : tcpRead event half.chunk = (bytes, (bytes.length : ℤ)))
    (hstate : half.packetState = .psHeader)
    (hfull : half.ring.count + bytes.length = half.packetRemain)
    (hlarge : half.ring.size < half.headerWord bytes + 4)
    (hle : half.headerWord bytes ≤ 0x1FFFFF) :
    Overfull (halfRead packet passthrough half event).half ∧
      (halfRead packet passthrough half event).next = .done := by
  obtain ⟨hring, -⟩ := received_atStart h hroom hfull.le
  have hword : be32 (half.received bytes).ring.data half.ring.head ≤ 0x1FFFFF := hle
  rw [halfRead_of_read h.ring hroom hread, if_pos hfull, if_pos hstate, halfHeader_of_le hword]
  exact ⟨⟨hring, hlarge⟩, rfl⟩

/-- A read that completes a header outside `HeaderFits`. -/
theorem overfull_of_not_fits {packet : Bool → (ℤ → UInt8) → ℤ → ℤ} {c : Conn} {side : Side}
    {event : ReadEvent} (h : Flows c) (hsize : 4 ≤ (c.half side).ring.size)
    (hpc : c.pc = .read side) (hfits : ¬ HeaderFits c (.read event))
    (hconnected : ∀ last, (step packet c (.read event)).pc ≠ .idle last) :
    Overfull ((step packet c (.read event)).half side) ∧
      (step packet c (.read event)).pc = .read side.peer := by
  have hwaiting := waiting_of_flows h hpc side
  simp only [HeaderFits, hpc, not_forall, not_or, not_le, not_lt] at hfits
  obtain ⟨hstate, hfull, hlarge, hle⟩ := hfits
  have hfour := hwaiting.header hstate
  obtain ⟨isclient, hhalf⟩ := sideHalf_eq packet side
  have hstep : step packet c (.read event) = c.readStep packet side event := by
    simp only [step, hpc]
  rw [hstep, Conn.readStep, hhalf] at hconnected ⊢
  dsimp only at hconnected ⊢
  rw [Function.update_self]
  rcases tcpRead_chunk_cases hwaiting event with hfail | ⟨bytes, -, hread⟩
  · rw [halfRead_of_failed hwaiting.ring (by omega) hfail] at hconnected
    exact absurd rfl (hconnected _)
  · rw [hread] at hfull hlarge hle
    obtain ⟨hover, hdone⟩ := @overfull_of_header (packet isclient) c.passthrough (c.half side)
      hwaiting (by omega) event bytes hread hstate hfull hlarge hle
    exact ⟨hover, by rw [hdone]; rfl⟩

/-- The turn of an overfull half ends the connection and leaves the half as it is. -/
theorem overfull_turn {packet : Bool → (ℤ → UInt8) → ℤ → ℤ} {c : Conn} {side : Side}
    (h : Overfull (c.half side)) (event : ReadEvent) :
    (c.readStep packet side event).half side = c.half side ∧
      (c.readStep packet side event).pc = .idle (some ⟨side, .internalError, -1⟩) := by
  obtain ⟨isclient, hhalf⟩ := sideHalf_eq packet side
  unfold Conn.readStep
  rw [hhalf, halfRead_of_short h.ring h.short]
  exact ⟨Function.update_self _ _ _, rfl⟩

/-- A read of the other half leaves an overfull half as it is, and does not bring it to a write. -/
theorem overfull_readStep {packet : Bool → (ℤ → UInt8) → ℤ → ℤ} {c : Conn} {side side' : Side}
    (hside : side ≠ side') (h : Overfull (c.half side)) (event : ReadEvent) :
    Overfull ((c.readStep packet side' event).half side) ∧
      ¬ (c.readStep packet side' event).Writing side := by
  unfold Conn.readStep
  dsimp only
  rw [Function.update_of_ne hside]
  refine ⟨h, ?_⟩
  rintro ⟨ioptr, chunk, sent, hwrite⟩
  dsimp only at hwrite
  generalize (sideHalf packet side' c.passthrough (c.half side') event).next = next at hwrite
  cases next with
  | done => cases hwrite
  | leave why result => cases hwrite
  | write ioptr' chunk' =>
      cases hwrite
      exact hside rfl

/-- So does a write of the other half. -/
theorem overfull_writeStep {c : Conn} {side side' : Side} (hside : side ≠ side')
    (h : Overfull (c.half side)) (ioptr chunk sent : ℤ) (event : WriteEvent) :
    Overfull ((c.writeStep side' ioptr chunk sent event).half side) ∧
      ¬ (c.writeStep side' ioptr chunk sent event).Writing side := by
  unfold Conn.writeStep
  dsimp only
  rw [Function.update_of_ne hside]
  refine ⟨h, ?_⟩
  rintro ⟨ioptr', chunk', sent', hwrite⟩
  dsimp only at hwrite
  generalize (halfWrite (c.half side') ioptr chunk sent event).next = next at hwrite
  cases next with
  | done => cases hwrite
  | leave result => cases hwrite
  | more sent'' =>
      cases hwrite
      exact hside rfl

/-- **An overfull half stays so**, as long as there is a connection. -/
theorem overfull_step {packet : Bool → (ℤ → UInt8) → ℤ → ℤ} {c : Conn} {side : Side}
    (h : Overfull (c.half side) ∧ ¬ c.Writing side) (input : Input)
    (hconnected : ∀ last, c.pc ≠ .idle last) :
    Overfull ((step packet c input).half side) ∧ ¬ (step packet c input).Writing side := by
  obtain ⟨hover, hwriting⟩ := h
  unfold step
  cases input with
  | start passthrough =>
      cases hpc : c.pc with
      | idle last => exact absurd hpc (hconnected last)
      | read side' => exact ⟨hover, hwriting⟩
      | write side' ioptr chunk sent => exact ⟨hover, hwriting⟩
  | read event =>
      cases hpc : c.pc with
      | idle last => exact absurd hpc (hconnected last)
      | write side' ioptr chunk sent => exact ⟨hover, hwriting⟩
      | read side' =>
          by_cases hside : side = side'
          · subst hside
            obtain ⟨hhalf, hend⟩ := @overfull_turn packet c side hover event
            refine ⟨hhalf.symm ▸ hover, ?_⟩
            rintro ⟨ioptr, chunk, sent, hwrite⟩
            rw [show (c.readStep packet side event).pc = _ from hend] at hwrite
            cases hwrite
          · exact overfull_readStep hside hover event
  | write event =>
      cases hpc : c.pc with
      | idle last => exact absurd hpc (hconnected last)
      | read side' => exact ⟨hover, hwriting⟩
      | write side' ioptr chunk sent =>
          have hside : side ≠ side' := by
            rintro rfl
            exact hwriting ⟨ioptr, chunk, sent, hpc⟩
          exact overfull_writeStep hside hover ioptr chunk sent event

/-- **A header that does not fit ends the connection**: whatever the other half does meanwhile,
the next turn of the half that has completed it fails the room check. -/
theorem oversize_ends (packet : Bool → (ℤ → UInt8) → ℤ → ℤ) {size : ℤ} (hsize : 4 ≤ size)
    (data : Side → ℤ → UInt8) (inputs later : List Input) (side : Side) (event event' : ReadEvent) :
    let c := run (step packet) (Conn.init size data) inputs
    let c' := run (step packet) c (.read event :: later)
    c.pc = .read side → ¬ HeaderFits c (.read event) →
      Along (step packet) (fun d _ => ∀ last, d.pc ≠ .idle last) c (.read event :: later) →
        c'.pc = .read side →
          (step packet c' (.read event')).pc = .idle (some ⟨side, .internalError, -1⟩) := by
  intro c c' hpc hfits hconnected hturn
  have hringSize : 4 ≤ (c.half side).ring.size := by
    rw [run_size packet (by omega) data inputs side]
    exact hsize
  have hgoesOn : ∀ last, (step packet c (.read event)).pc ≠ .idle last := by
    cases later with
    | nil =>
        intro last hlast
        rw [show (step packet c (.read event)).pc = .read side from hturn] at hlast
        cases hlast
    | cons input later => exact hconnected.2.1
  obtain ⟨hover, hpeer⟩ := @overfull_of_not_fits packet c side event
    (run_flows packet (by omega) data inputs) hringSize hpc hfits hgoesOn
  have hwriting : ¬ (step packet c (.read event)).Writing side := by
    rintro ⟨ioptr, chunk, sent, hwrite⟩
    rw [hpeer] at hwrite
    cases hwrite
  obtain ⟨hlast, -⟩ : Overfull (c'.half side) ∧ ¬ c'.Writing side :=
    run_invariant_of (fun d _ => ∀ last, Conn.pc d ≠ .idle last)
      (fun d : Conn => Overfull (d.half side) ∧ ¬ d.Writing side)
      (fun _ input h hconn => overfull_step h input hconn) ⟨hover, hwriting⟩ hconnected.2
  have hlastStep : step packet c' (.read event') = c'.readStep packet side event' := by
    simp only [step, hturn]
  rw [hlastStep]
  exact (overfull_turn hlast event').2

/-- **The length check admits frames that do not fit**: `0x20005` is below its limit, and
with the header one byte more than the ring of `main` takes. -/
theorem internalError_reached :
    ¬ ∀ (packet : Bool → (ℤ → UInt8) → ℤ → ℤ) (data : Side → ℤ → UInt8) (inputs : List Input)
      (side : Side) (result : ℤ),
        (run (step packet) (Conn.init iobufferSize data) inputs).pc ≠
          .idle (some ⟨side, .internalError, result⟩) := by
  intro h
  have hreached := h (fun _ _ _ => 0) (fun _ _ => 0)
    [.start false, .read (.ready [0x00, 0x02, 0x00, 0x05]), .read .timeout, .read .timeout]
    .client (-1)
  exact absurd hreached (by decide +kernel)

end SmbProxy.Analysis
