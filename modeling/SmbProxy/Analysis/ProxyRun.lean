import SmbProxy.Analysis.HalfRead

/-!
# The invariant of the proxy loop

Each direction of a connection is in a phase of its own (`Phase`): its half waits, is in
`tcp_write`, or has left the loop. `Flow` says for each phase how the bytes received, the
bytes sent, the ring and the judged blocks fit together. A step of the worker moves one
direction (`flow_halfRead`, `flow_halfWrite`) and leaves the other as it is, so the
two flows are an invariant of every run (`run_flows`).
-/

set_option autoImplicit false

namespace SmbProxy.Analysis

open SmbProxy.Library SmbProxy.Model SmbProxy.Interface

/-! ## One direction -/

/-- What a half is doing. -/
inductive Phase
  | waiting
  | writing (ioptr chunk sent : ℤ)
  | left (why : Break)

/-- Unless in passthrough mode, these bytes are the judged blocks, all of them accepted. -/
def Accepted (passthrough : Bool) (judged : List (List UInt8 × ℤ)) (bytes : List UInt8) : Prop :=
  passthrough = false → bytes = (judged.map Prod.fst).flatten ∧ ∀ e ∈ judged, e.2 = 0

/-- **One direction of a connection**: the half, the bytes received by it, the bytes sent
for it and the blocks judged by it, phase by phase. -/
inductive Flow (passthrough : Bool) (half : Half) (rx tx : List UInt8)
    (judged : List (List UInt8 × ℤ)) : Phase → Prop
  | waiting : half.Waiting → rx = tx ++ half.ring.contents → Accepted passthrough judged tx →
      Flow passthrough half rx tx judged .waiting
  | writing {before : List UInt8} {sent : ℕ} : half.ring.AtStart → half.packetState = .psHeader →
      half.packetRemain = 4 → sent < half.ring.count → rx = before ++ half.ring.contents →
      tx = before ++ half.ring.contents.take sent → Accepted passthrough judged rx →
      Flow passthrough half rx tx judged (.writing 0 half.ring.count sent)
  /-- Out of the loop at a place where nothing of the ring has been judged. -/
  | left {why : Break} : why ≠ .rejected → why ≠ .writeFailed → half.Waiting →
      rx = tx ++ half.ring.contents → Accepted passthrough judged tx →
      Flow passthrough half rx tx judged (.left why)
  | rejected {accepted : List (List UInt8 × ℤ)} {verdict : ℤ} : half.Waiting →
      rx = tx ++ half.ring.contents → verdict ≠ 0 →
      judged = accepted ++ [(half.ring.contents, verdict)] → Accepted passthrough accepted tx →
      Flow passthrough half rx tx judged (.left .rejected)
  | writeFailed {before : List UInt8} {sent : ℕ} : half.ring.AtStart →
      rx = before ++ half.ring.contents → tx = before ++ half.ring.contents.take sent →
      Accepted passthrough judged rx → Flow passthrough half rx tx judged (.left .writeFailed)

variable {passthrough : Bool} {half : Half} {rx tx : List UInt8}
  {judged : List (List UInt8 × ℤ)} {phase : Phase}

/-- In every phase the ring starts at the start of its array. -/
theorem flow_atStart (h : Flow passthrough half rx tx judged phase) : half.ring.AtStart := by
  cases h with
  | waiting hwaiting => exact hwaiting.ring
  | writing hring => exact hring
  | left _ _ hwaiting => exact hwaiting.ring
  | rejected hwaiting => exact hwaiting.ring
  | writeFailed hring => exact hring

/-- At the start nothing has been received and nothing sent. -/
theorem flow_start {ring : Ioring} (h : 1 ≤ ring.size) (passthrough : Bool) :
    Flow passthrough ⟨butilResetRing ring, .psHeader, 4⟩ [] [] [] .waiting := by
  refine .waiting (waiting_reset h) ?_ fun _ => ⟨rfl, by simp⟩
  rw [(butilResetRing_spec h).2]
  rfl

/-- The phase after a read. -/
def nextPhase : HalfNext → Phase
  | .done => .waiting
  | .write ioptr chunk => .writing ioptr chunk 0
  | .leave why _ => .left why

/-- One more accepted block. -/
theorem accepted_append {block : List UInt8} {bytes : List UInt8}
    (h : Accepted passthrough judged bytes) :
    Accepted passthrough (judged ++ (if passthrough then none else some (block, (0 : ℤ))).toList)
      (bytes ++ block) := by
  intro hpass
  obtain ⟨hbytes, hzero⟩ := h hpass
  subst hpass
  refine ⟨by simp [hbytes], ?_⟩
  intro e he
  simp only [Bool.false_eq_true, if_false, Option.toList_some, List.mem_append,
    List.mem_singleton] at he
  cases he with
  | inl he => exact hzero e he
  | inr he => rw [he]

/-- **A read keeps the flow.** -/
theorem flow_halfRead {packet : (ℤ → UInt8) → ℤ → ℤ} {s : HalfStep} (event : ReadEvent)
    (h : Flow passthrough half rx tx judged .waiting)
    (hs : halfRead packet passthrough half event = s) :
    Flow passthrough s.half (rx ++ s.received) tx (judged ++ s.judged.toList)
      (nextPhase s.next) := by
  obtain ⟨hwaiting, hrx, haccepted⟩ := h
  have houtcome := @halfRead_outcome packet passthrough half hwaiting event
  rw [hs] at houtcome
  cases houtcome with
  | internalError _ =>
      simp only [List.append_nil, Option.toList_none, nextPhase]
      exact .left (by decide) (by decide) hwaiting hrx haccepted
  | readFailed _ =>
      simp only [List.append_nil, Option.toList_none, nextPhase]
      exact .left (by decide) (by decide) hwaiting hrx haccepted
  | @more bytes hroom hfit =>
      obtain ⟨-, hcontents⟩ := received_atStart hwaiting hroom hfit.le
      simp only [List.append_nil, Option.toList_none, nextPhase]
      refine .waiting (waiting_received hwaiting hroom hfit.le) ?_ haccepted
      rw [hrx, hcontents, List.append_assoc]
  | @invalidHeader bytes hroom hfull hstate _ =>
      obtain ⟨-, hcontents⟩ := received_atStart hwaiting hroom hfull.le
      simp only [List.append_nil, Option.toList_none, nextPhase]
      refine .left (by decide) (by decide) (waiting_received hwaiting hroom hfull.le) ?_ haccepted
      rw [hrx, hcontents, List.append_assoc]
  | @header bytes hroom hfull hstate _ =>
      obtain ⟨-, hcontents⟩ := received_atStart hwaiting hroom hfull.le
      have hbody := waiting_headed hwaiting hroom hfull hstate (half.headerWord bytes)
      simp only [List.append_nil, Option.toList_none, nextPhase]
      refine .waiting hbody ?_ haccepted
      rw [hrx, hcontents, List.append_assoc]
  | @rejected bytes verdict hroom hfull hstate hpass hne =>
      obtain ⟨-, hcontents⟩ := received_atStart hwaiting hroom hfull.le
      simp only [Option.toList_some, nextPhase]
      refine .rejected (waiting_received hwaiting hroom hfull.le) ?_ hne rfl haccepted
      rw [hrx, hcontents, List.append_assoc]
  | @forward bytes hroom hfull hstate =>
      obtain ⟨hring, hcontents⟩ := received_atStart hwaiting hroom hfull.le
      have hbody := hwaiting.body hstate
      have hcount : (half.received bytes).ring.count = half.packetRemain := hfull
      have hflow : rx ++ bytes = tx ++ (half.received bytes).ring.contents := by
        rw [hrx, hcontents, List.append_assoc]
      simp only [nextPhase]
      rw [← hcount]
      have hzero : ((0 : ℕ) : ℤ) < (half.received bytes).ring.count := by omega
      refine .writing hring rfl rfl hzero hflow (by simp) ?_
      rw [hflow]
      exact accepted_append haccepted

/-- What a pass of `tcp_write` sends is what comes next in the ring. -/
theorem contents_take_add {ring : Ioring} (h : ring.AtStart) {sent wc : ℕ}
    (hle : (sent : ℤ) + wc ≤ ring.count) :
    ring.contents.take sent ++ window (fun i => ring.data (0 + i)) sent wc =
      ring.contents.take (sent + wc) := by
  have hshift : window (fun i => ring.data (0 + i)) sent wc = window ring.data (0 + sent) wc := by
    simp only [window, zero_add]
  rw [contents_of_atStart h, window_take _ _ (by omega), window_take _ _ (by omega), hshift,
    window_add]

/-- The phase after a pass of `tcp_write`. -/
def writePhase (ioptr chunk : ℤ) : WriteNext → Phase
  | .more sent => .writing ioptr chunk sent
  | .done => .waiting
  | .leave _ => .left .writeFailed

/-- **A pass of `tcp_write` keeps the flow.** When it is through, the ring is reset. -/
theorem flow_halfWrite {ioptr chunk sent : ℤ} {s : WriteStep} (event : WriteEvent)
    (h : Flow passthrough half rx tx judged (.writing ioptr chunk sent))
    (hs : halfWrite half ioptr chunk sent event = s) :
    Flow passthrough s.half rx (tx ++ s.sent) judged (writePhase ioptr chunk s.next) ∧
      (s.next = .done → s.half.ring = butilResetRing half.ring) := by
  cases h with
  | @writing before sent hring hstate hremain hlt hrx htx haccepted =>
      unfold halfWrite at hs
      rcases tcpWriteBody_cases (fun i => half.ring.data (0 + i)) hlt event with
        hfail | ⟨wc, hpos, hwc, hpart⟩ | ⟨wc, hwc, hall⟩
      · rw [hfail] at hs
        dsimp only at hs
        rw [if_neg (by decide)] at hs
        subst hs
        refine ⟨?_, fun hdone => by cases hdone⟩
        dsimp only
        rw [List.append_nil]
        exact .writeFailed hring hrx htx haccepted
      · have hsent : (sent : ℤ) + wc = ((sent + wc : ℕ) : ℤ) := by push_cast; rfl
        rw [hpart] at hs
        subst hs
        refine ⟨?_, fun hdone => by cases hdone⟩
        dsimp only [writePhase]
        rw [hsent]
        refine .writing hring hstate hremain (by omega) hrx ?_ haccepted
        rw [htx, List.append_assoc, contents_take_add hring hwc.le]
      · have hlength := contents_length hring
        have htake : half.ring.contents.take (sent + wc) = half.ring.contents :=
          List.take_of_length_le (by omega)
        have hwritten : half.written half.ring.count = ⟨butilResetRing half.ring, .psHeader, 4⟩ := by
          unfold Half.written
          rw [ringConsume_atStart, hstate, hremain]
        have hsent : tx ++ window (fun i => half.ring.data (0 + i)) sent wc = rx := by
          rw [htx, List.append_assoc, contents_take_add hring hwc.le, htake, hrx]
        obtain ⟨hwaiting, -, -⟩ := flow_start hring.size_pos passthrough
        rw [hall] at hs
        dsimp only at hs
        rw [if_pos hring.count_nonneg, hwritten] at hs
        subst hs
        refine ⟨?_, fun _ => rfl⟩
        dsimp only [writePhase]
        rw [hsent]
        refine .waiting hwaiting ?_ haccepted
        rw [(butilResetRing_spec hring.size_pos).2, List.append_nil]

/-! ## Both directions -/

/-- The phase of the half of a side. -/
def phaseOf (side : Side) : Pc → Phase
  | .read _ => .waiting
  | .write side' ioptr chunk sent => if side' = side then .writing ioptr chunk sent else .waiting
  | .idle none => .waiting
  | .idle (some ending) => if ending.side = side then .left ending.why else .waiting

/-- A direction that writes has the worker at its write. -/
theorem writing_of_phaseOf {pc : Pc} {side : Side} {ioptr chunk sent : ℤ}
    (h : phaseOf side pc = .writing ioptr chunk sent) : pc = .write side ioptr chunk sent := by
  cases pc with
  | read side' => cases h
  | write side' ioptr' chunk' sent' =>
      dsimp only [phaseOf] at h
      split_ifs at h with hside
      cases h
      rw [hside]
  | idle last =>
      cases last with
      | none => cases h
      | some ending =>
          dsimp only [phaseOf] at h
          split_ifs at h

/-- A direction has been left where the connection has ended at its half. -/
theorem left_of_phaseOf {pc : Pc} {side : Side} {why : Break}
    (h : phaseOf side pc = .left why) : ∃ result, pc = .idle (some ⟨side, why, result⟩) := by
  cases pc with
  | read side' => cases h
  | write side' ioptr chunk sent =>
      dsimp only [phaseOf] at h
      split_ifs at h
  | idle last =>
      cases last with
      | none => cases h
      | some ending =>
          dsimp only [phaseOf] at h
          split_ifs at h with hside
          cases h
          subst hside
          exact ⟨ending.result, rfl⟩

/-- The invariant of a connection. -/
def Flows (c : Conn) : Prop :=
  ∀ side, Flow c.passthrough (c.half side) (c.socket side).rx (c.socket side.peer).tx
    (c.judged side) (phaseOf side c.pc)

/-- The other side of the other side. -/
@[simp] theorem peer_peer (side : Side) : side.peer.peer = side := by
  cases side <;> rfl

/-- The two sides are different. -/
theorem peer_ne (side : Side) : side.peer ≠ side := by
  cases side <;> decide

/-- There are no other sides. -/
theorem eq_or_eq_peer (side side' : Side) : side' = side ∨ side' = side.peer := by
  cases side <;> cases side' <;> decide

/-- The half of a side calls `packet` for this side. -/
theorem sideHalf_packet (packet : Bool → (ℤ → UInt8) → ℤ → ℤ) (side : Side) :
    sideHalf packet side = halfRead (packet (decide (side = .client))) := by
  cases side <;> rfl

/-- Either half is the same code with a verdict function of its own. -/
theorem sideHalf_eq (packet : Bool → (ℤ → UInt8) → ℤ → ℤ) (side : Side) :
    ∃ isclient, sideHalf packet side = halfRead (packet isclient) := by
  cases side with
  | client => exact ⟨true, rfl⟩
  | server => exact ⟨false, rfl⟩

/-- Before its first connection a worker has two empty flows. -/
theorem flows_init {size : ℤ} (h : 1 ≤ size) (data : Side → ℤ → UInt8) :
    Flows (Conn.init size data) :=
  fun side => @flow_start ⟨0, 0, 0, size, data side⟩ h false

/-- A connection starts with two empty flows. -/
theorem flows_start {c : Conn} (h : Flows c) (passthrough : Bool) :
    Flows (c.start passthrough) :=
  fun side => flow_start (flow_atStart (h side)).size_pos passthrough

/-- After the read of a half the other one waits. -/
theorem phaseOf_pcAfter (side : Side) (next : HalfNext) :
    phaseOf side (pcAfter side next) = nextPhase next ∧
      phaseOf side.peer (pcAfter side next) = .waiting := by
  have hne : side ≠ side.peer := (peer_ne side).symm
  cases next with
  | done => exact ⟨rfl, rfl⟩
  | write ioptr chunk => exact ⟨if_pos rfl, if_neg hne⟩
  | leave why result => exact ⟨if_pos rfl, if_neg hne⟩

/-- After the write of a half the other one waits. -/
theorem phaseOf_pcAfterWrite (side : Side) (ioptr chunk : ℤ) (next : WriteNext) :
    phaseOf side (pcAfterWrite side ioptr chunk next) = writePhase ioptr chunk next ∧
      phaseOf side.peer (pcAfterWrite side ioptr chunk next) = .waiting := by
  have hne : side ≠ side.peer := (peer_ne side).symm
  cases next with
  | more sent => exact ⟨if_pos rfl, if_neg hne⟩
  | done => exact ⟨rfl, rfl⟩
  | leave result => exact ⟨if_pos rfl, if_neg hne⟩

/-- **A read keeps both flows.** -/
theorem flows_readStep {packet : Bool → (ℤ → UInt8) → ℤ → ℤ} {c : Conn} {side : Side}
    (h : Flows c) (hpc : c.pc = .read side) (event : ReadEvent) :
    Flows (c.readStep packet side event) := by
  intro side'
  obtain ⟨isclient, hhalf⟩ := sideHalf_eq packet side
  obtain ⟨hphase, hphase'⟩ := phaseOf_pcAfter side
    (halfRead (packet isclient) c.passthrough (c.half side) event).next
  have hwaiting : phaseOf side' c.pc = .waiting := by
    rw [hpc]
    rfl
  have hflow := h side'
  rw [hwaiting] at hflow
  unfold Conn.readStep
  rw [hhalf]
  rcases eq_or_eq_peer side side' with rfl | rfl
  · have hread := flow_halfRead event hflow
      (rfl : halfRead (packet isclient) c.passthrough (c.half side') event = _)
    simpa only [Function.update_self, Function.update_of_ne (peer_ne side'), hphase] using hread
  · simpa only [Function.update_self, Function.update_of_ne (peer_ne side), peer_peer,
      hphase'] using hflow

/-- **A pass of `tcp_write` keeps both flows.** -/
theorem flows_writeStep {c : Conn} {side : Side} {ioptr chunk sent : ℤ} (h : Flows c)
    (hpc : c.pc = .write side ioptr chunk sent) (event : WriteEvent) :
    Flows (c.writeStep side ioptr chunk sent event) := by
  have hne : side ≠ side.peer := (peer_ne side).symm
  obtain ⟨hphase, hphase'⟩ := phaseOf_pcAfterWrite side ioptr chunk
    (halfWrite (c.half side) ioptr chunk sent event).next
  intro side'
  have hflow := h side'
  unfold Conn.writeStep
  rcases eq_or_eq_peer side side' with rfl | rfl
  · have hwriting : phaseOf side' c.pc = .writing ioptr chunk sent := by
      rw [hpc]
      exact if_pos rfl
    rw [hwriting] at hflow
    have hwrite := (flow_halfWrite event hflow rfl).1
    simpa only [Function.update_self, Function.update_of_ne hne, hphase] using hwrite
  · have hwaiting : phaseOf side.peer c.pc = .waiting := by
      rw [hpc]
      exact if_neg hne
    rw [hwaiting] at hflow
    simpa only [Function.update_self, Function.update_of_ne hne, Function.update_of_ne (peer_ne side),
      peer_peer, hphase'] using hflow

/-- **One step keeps both flows.** -/
theorem flows_step (packet : Bool → (ℤ → UInt8) → ℤ → ℤ) {c : Conn} (h : Flows c)
    (input : Input) : Flows (step packet c input) := by
  unfold step
  cases input with
  | start passthrough =>
      cases hpc : c.pc with
      | idle last => exact flows_start h passthrough
      | read side => exact h
      | write side ioptr chunk sent => exact h
  | read event =>
      cases hpc : c.pc with
      | idle last => exact h
      | read side => exact flows_readStep h hpc event
      | write side ioptr chunk sent => exact h
  | write event =>
      cases hpc : c.pc with
      | idle last => exact h
      | read side => exact h
      | write side ioptr chunk sent => exact flows_writeStep h hpc event

/-! ## Sizes -/

/-- A read leaves the size of the ring as it is. -/
theorem halfRead_size {packet : (ℤ → UInt8) → ℤ → ℤ} (h : half.Waiting) (event : ReadEvent) :
    (halfRead packet passthrough half event).half.ring.size = half.ring.size := by
  have houtcome := @halfRead_outcome packet passthrough half h event
  cases hs : halfRead packet passthrough half event with
  | mk half' received judged next =>
      rw [hs] at houtcome
      cases houtcome <;> rfl

/-- A write leaves the size of the ring as it is, and what the half waits for. -/
theorem halfWrite_half (half : Half) (ioptr chunk sent : ℤ) (event : WriteEvent) :
    (halfWrite half ioptr chunk sent event).half.ring.size = half.ring.size ∧
      (halfWrite half ioptr chunk sent event).half.packetRemain = half.packetRemain := by
  unfold halfWrite
  cases hnext : (tcpWriteBody (fun i => half.ring.data (ioptr + i)) chunk sent event).next with
  | inl sent' => simp only [hnext, and_self]
  | inr result =>
      simp only [hnext]
      split_ifs
      · exact ⟨ringConsume_size half.ring result, rfl⟩
      · exact ⟨rfl, rfl⟩

/-- Which half a step changes, and to what. -/
theorem step_half (packet : Bool → (ℤ → UInt8) → ℤ → ℤ) (c : Conn) (input : Input) (side : Side) :
    (step packet c input).half side = c.half side ∨
      (step packet c input).half side = ⟨butilResetRing (c.half side).ring, .psHeader, 4⟩ ∨
      (∃ event isclient, input = .read event ∧ c.pc = .read side ∧
        (step packet c input).half side =
          (halfRead (packet isclient) c.passthrough (c.half side) event).half) ∨
      ∃ event ioptr chunk sent, c.pc = .write side ioptr chunk sent ∧
        (step packet c input).half side = (halfWrite (c.half side) ioptr chunk sent event).half := by
  unfold step
  cases input with
  | start passthrough =>
      cases hpc : c.pc with
      | idle last => exact Or.inr (Or.inl rfl)
      | read side => exact Or.inl rfl
      | write side ioptr chunk sent => exact Or.inl rfl
  | read event =>
      cases hpc : c.pc with
      | idle last => exact Or.inl rfl
      | read side' =>
          obtain ⟨isclient, hhalf⟩ := sideHalf_eq packet side'
          rcases eq_or_eq_peer side' side with rfl | rfl
          · refine Or.inr (Or.inr (Or.inl ⟨event, isclient, rfl, rfl, ?_⟩))
            simp only [Conn.readStep, hhalf, Function.update_self]
          · left
            simp only [Conn.readStep, Function.update_of_ne (peer_ne side')]
      | write side ioptr chunk sent => exact Or.inl rfl
  | write event =>
      cases hpc : c.pc with
      | idle last => exact Or.inl rfl
      | read side => exact Or.inl rfl
      | write side' ioptr chunk sent =>
          rcases eq_or_eq_peer side' side with rfl | rfl
          · refine Or.inr (Or.inr (Or.inr ⟨event, ioptr, chunk, sent, rfl, ?_⟩))
            simp only [Conn.writeStep, Function.update_self]
          · left
            simp only [Conn.writeStep, Function.update_of_ne (peer_ne side')]

/-- **Every run keeps both flows.** -/
theorem run_flows (packet : Bool → (ℤ → UInt8) → ℤ → ℤ) {size : ℤ} (h : 1 ≤ size)
    (data : Side → ℤ → UInt8) (inputs : List Input) :
    Flows (run (step packet) (Conn.init size data) inputs) :=
  run_invariant Flows (fun _ input hc => flows_step packet hc input) (flows_init h data) inputs

/-- When the worker is at a read, both halves wait. -/
theorem waiting_of_flows {c : Conn} (h : Flows c) {side : Side} (hpc : c.pc = .read side)
    (side' : Side) : (c.half side').Waiting := by
  have hflow := h side'
  rw [hpc] at hflow
  cases hflow with
  | waiting hwaiting => exact hwaiting

/-- **Every run keeps the sizes of the rings.** -/
theorem run_size (packet : Bool → (ℤ → UInt8) → ℤ → ℤ) {size : ℤ} (h : 1 ≤ size)
    (data : Side → ℤ → UInt8) (inputs : List Input) (side : Side) :
    ((run (step packet) (Conn.init size data) inputs).half side).ring.size = size := by
  refine (run_invariant (fun c => Flows c ∧ (c.half side).ring.size = size) ?_
    ⟨flows_init h data, rfl⟩ inputs).2
  rintro c input ⟨hflows, hsize⟩
  refine ⟨flows_step packet hflows input, ?_⟩
  rcases step_half packet c input side with
    heq | heq | ⟨event, isclient, -, hpc, heq⟩ | ⟨event, ioptr, chunk, sent, -, heq⟩
  · rw [heq, hsize]
  · rw [heq]
    exact hsize
  · rw [heq, halfRead_size (waiting_of_flows hflows hpc side), hsize]
  · rw [heq, (halfWrite_half _ _ _ _ _).1, hsize]

end SmbProxy.Analysis
