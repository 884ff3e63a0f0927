import SmbProxy.Analysis.Isolation

/-!
# What is being written goes out

`tcp_write` is left when all is sent or when it fails. As long as every `send` takes
something, each pass brings the worker nearer to the end of its message, and no other thread
gets in its way (`loopKept_of_other`). So a number of its own passes that is known beforehand brings the
message to the other end (`process_delivers`).
-/

set_option autoImplicit false

namespace SmbProxy.Analysis

open SmbProxy.Library SmbProxy.Model SmbProxy.Interface

/-! ## A pass of one connection -/

section Pass

variable {c : Conn} {packet : Bool → (ℤ → UInt8) → ℤ → ℤ} {side : Side} {ioptr chunk sent : ℤ}

/-- A `send` of something does not fail: what is left fits into a `size_t`. -/
theorem tcpWriteBody_sent {buffer : ℤ → UInt8} (hlt : sent < chunk)
    (hfits : chunk - sent < 2 ^ 64) {n : ℕ} (hn : 0 < n) :
    (tcpWriteBody buffer chunk sent (.sent n)).events ≠ [] := by
  have hleft : sizeT (chunk - sent) = (chunk - sent).toNat := by
    unfold sizeT
    rw [Int.emod_eq_of_lt (by omega) hfits]
  have htaken : min n (sizeT (chunk - sent)) ≠ 0 := by omega
  unfold tcpWriteBody
  dsimp only
  rw [if_neg htaken]
  apply List.ne_nil_of_length_pos
  rw [window_length]
  exact Nat.pos_of_ne_zero htaken

/-- A worker in `tcp_write` is in front of the end of what its ring holds. -/
theorem writing_of_carried (h : Carried c) (hpc : c.pc = .write side ioptr chunk sent) :
    0 ≤ ioptr ∧ 0 ≤ sent ∧ sent < chunk ∧ ioptr + chunk ≤ (c.half side).ring.size := by
  obtain ⟨passthrough, judged, hflows⟩ := h
  have hflow := hflows side
  simp only [hpc, phaseOf, if_true] at hflow
  cases hflow with
  | writing hring _ _ hlt =>
      have hle := hring.count_le
      exact ⟨le_rfl, by omega, hlt, by omega⟩

/-- **A pass in which `send` takes something** goes on behind that, or is the last one. -/
theorem writeStep_sent (h : Carried c) (hpc : c.pc = .write side ioptr chunk sent)
    (hsize : (c.half side).ring.size < 2 ^ 31) {n : ℕ} (hn : 0 < n) :
    ((step packet c (.write (.sent n))).socket side).rx = (c.socket side).rx ∧
      ((∃ sent', sent < sent' ∧ sent' < chunk ∧
          (step packet c (.write (.sent n))).pc = .write side ioptr chunk sent') ∨
        (step packet c (.write (.sent n))).pc = .read side.peer ∧
          ((step packet c (.write (.sent n))).socket side.peer).tx = (c.socket side).rx) := by
  obtain ⟨hptr, hsent, hlt, hle⟩ := writing_of_carried h hpc
  obtain ⟨passthrough, judged, hflows⟩ := h
  have hflow := hflows side
  simp only [hpc, phaseOf, if_true] at hflow
  obtain ⟨hflow', hreset⟩ := flow_halfWrite (.sent n) hflow rfl
  have hstep : step packet c (.write (.sent n)) = c.writeStep side ioptr chunk sent (.sent n) := by
    simp only [step, hpc]
  rw [hstep]
  refine ⟨?_, ?_⟩
  · show (Function.update c.socket side.peer _ side).rx = _
    rw [Function.update_of_ne (peer_ne side).symm]
  · have hpcNext : (c.writeStep side ioptr chunk sent (.sent n)).pc =
        pcAfterWrite side ioptr chunk (halfWrite (c.half side) ioptr chunk sent (.sent n)).next := rfl
    have htx : ((c.writeStep side ioptr chunk sent (.sent n)).socket side.peer).tx =
        (c.socket side.peer).tx ++ (halfWrite (c.half side) ioptr chunk sent (.sent n)).sent := by
      unfold Conn.writeStep
      simp only [Function.update_self]
    rw [hpcNext, htx]
    rcases tcpWriteBody_cases (fun i => (c.half side).ring.data (ioptr + i)) hlt (.sent n) with
      hfail | ⟨wc, hpos, hmore, hpart⟩ | ⟨wc, -, hall⟩
    · have hsome := @tcpWriteBody_sent chunk sent (fun i => (c.half side).ring.data (ioptr + i)) hlt
        (by omega) n hn
      rw [hfail] at hsome
      exact absurd rfl hsome
    · have hnext : (halfWrite (c.half side) ioptr chunk sent (.sent n)).next = .more (sent + wc) := by
        unfold halfWrite
        rw [hpart]
      rw [hnext]
      exact Or.inl ⟨sent + wc, by omega, hmore, rfl⟩
    · have hnext : (halfWrite (c.half side) ioptr chunk sent (.sent n)).next = .done := by
        unfold halfWrite
        rw [hall]
        dsimp only
        rw [if_pos (by omega)]
      rw [hnext] at hflow' ⊢
      have hempty := hreset hnext
      cases hflow' with
      | waiting hwaiting hrx =>
          have hring : 1 ≤ (c.half side).ring.size := by omega
          rw [hempty, (butilResetRing_spec hring).2, List.append_nil] at hrx
          exact Or.inr ⟨rfl, hrx.symm⟩

end Pass

/-! ## A step of the process -/

section Delivery

variable {packet : Bool → (ℤ → UInt8) → ℤ → ℤ} {size : ℤ} {before s : Process} {i : ℕ}
  {side : Side} {ioptr chunk : ℤ}

/-- A worker that is writing what had come in before. -/
structure Sending (before s : Process) (size : ℤ) (i : ℕ) (side : Side) (ioptr chunk : ℤ) :
    Prop where
  linked : Linked (fun _ => True) Carried Exchanged size s
  worker : s.handover.worker i = .proxy
  ends : (s.handover.ctx i).socket = (before.handover.ctx i).socket
  pc : ∃ sent, (s.conn i).pc = .write side ioptr chunk sent
  received : ((s.conn i).socket side).rx = ((before.conn i).socket side).rx

/-- How many bytes `tcp_write` has still to send. -/
def unsentBytes : Pc → ℕ
  | .write _ _ chunk sent => (chunk - sent).toNat
  | _ => 0

/-- In a write there are bytes left. -/
theorem unsentBytes_pos (h : Sending before s size i side ioptr chunk) :
    0 < unsentBytes (s.conn i).pc := by
  obtain ⟨sent, hpc⟩ := h.pc
  obtain ⟨-, -, hlt, -⟩ := writing_of_carried (h.linked.looping i h.worker) hpc
  rw [hpc]
  show 0 < (chunk - sent).toNat
  omega

/-- In the loop, where the worker is says that it is in the loop. -/
theorem worker_of_loopStep (hpc : s.handover.worker i = .proxy) (event : LoopEvent)
    (hstays : (step packet (s.conn i) event.input).pc.left = false) :
    (s.loopStep packet i event).handover.worker i = .proxy := by
  unfold Process.loopStep
  rw [if_pos hpc]
  dsimp only
  rw [hstays]
  exact hpc

/-- **Another thread** leaves the worker sending. -/
theorem sending_other (h : Sending before s size i side ioptr chunk) {input : ProcessInput}
    (hlinked : Linked (fun _ => True) Carried Exchanged size (processStep packet s input))
    (hother : ∀ event, input ≠ .loop i event) :
    Sending before (processStep packet s input) size i side ioptr chunk ∧
      unsentBytes ((processStep packet s input).conn i).pc = unsentBytes (s.conn i).pc := by
  have hkept := @loopKept_of_other packet _ _ _ _ _ _ h.linked h.worker input hother
  rw [hkept.conn]
  refine ⟨⟨hlinked, hkept.worker, hkept.ends.trans h.ends, ?_, ?_⟩, rfl⟩
  · rw [hkept.conn]
    exact h.pc
  · rw [hkept.conn]
    exact h.received

/-- **Its own step** is a pass in which `send` takes something, or nothing at all. -/
theorem sending_own (hsize : size < 2 ^ 31) (h : Sending before s size i side ioptr chunk)
    {event : LoopEvent} (hsends : SendsSome i (.loop i event))
    (hlinked : Linked (fun _ => True) Carried Exchanged size (s.loopStep packet i event)) :
    Delivered before (s.loopStep packet i event) i side ∨
      Sending before (s.loopStep packet i event) size i side ioptr chunk ∧
        unsentBytes ((s.loopStep packet i event).conn i).pc ≤ unsentBytes (s.conn i).pc ∧
        (writesOf i (.loop i event) = true →
          unsentBytes ((s.loopStep packet i event).conn i).pc < unsentBytes (s.conn i).pc) := by
  obtain ⟨sent, hpc⟩ := h.pc
  obtain ⟨hends, hconn⟩ := @loop_own packet _ _ _ _ _ _ h.linked h.worker event
  have hworker := @worker_of_loopStep packet s i h.worker event
  cases event with
  | read readEvent =>
      -- A read is not what the worker waits for.
      have hstep : step packet (s.conn i) (LoopEvent.read readEvent).input = s.conn i := by
        simp only [LoopEvent.input, step, hpc]
      rw [hstep] at hconn hworker
      rw [hconn]
      refine Or.inr ⟨⟨hlinked, hworker (by rw [hpc]; rfl), hends.trans h.ends, ?_, ?_⟩, le_rfl,
        fun hwrites => absurd hwrites Bool.false_ne_true⟩
      · rw [hconn]
        exact h.pc
      · rw [hconn]
        exact h.received
  | write writeEvent =>
      cases writeEvent with
      | selectFailed => exact absurd rfl hsends
      | timeout => exact absurd rfl hsends
      | sendFailed => exact absurd rfl hsends
      | sent n =>
          have hfits : ((s.conn i).half side).ring.size < 2 ^ 31 :=
            (h.linked.size i side).symm ▸ hsize
          obtain ⟨hrx, hnext⟩ := @writeStep_sent _ packet _ _ _ _ (h.linked.looping i h.worker) hpc
            hfits _ (hsends rfl)
          rw [show (LoopEvent.write (.sent n)).input = .write (.sent n) from rfl] at hconn hworker
          rw [← hconn] at hrx hnext hworker
          rcases hnext with ⟨sent', hmore, hlt, hpcNext⟩ | ⟨hpcNext, htx⟩
          · have hless : unsentBytes ((s.loopStep packet i (.write (.sent n))).conn i).pc <
                unsentBytes (s.conn i).pc := by
              rw [hpcNext, hpc]
              show (chunk - sent').toNat < (chunk - sent).toNat
              omega
            exact Or.inr ⟨⟨hlinked, hworker (by rw [hpcNext]; rfl), hends.trans h.ends,
              ⟨sent', hpcNext⟩, hrx.trans h.received⟩, hless.le, fun _ => hless⟩
          · exact Or.inl ⟨hworker (by rw [hpcNext]; rfl), hends.trans h.ends, hpcNext,
              htx.trans h.received⟩

/-- **A step of the process** in which `send` takes something. -/
theorem sending_step (hsize : 1 ≤ size ∧ size < 2 ^ 31)
    (h : Sending before s size i side ioptr chunk) {input : ProcessInput}
    (hsends : SendsSome i input) :
    Delivered before (processStep packet s input) i side ∨
      Sending before (processStep packet s input) size i side ioptr chunk ∧
        unsentBytes ((processStep packet s input).conn i).pc ≤ unsentBytes (s.conn i).pc ∧
        (writesOf i input = true →
          unsentBytes ((processStep packet s input).conn i).pc < unsentBytes (s.conn i).pc) := by
  have hpermitted : Permitted (fun _ => True) AnyEvent s input := by
    cases input <;> first | trivial | exact fun _ => trivial
  have hlinked := linked_step (carried_rule packet trivial) hsize.1 h.linked hpermitted
  by_cases hown : ∃ event, input = .loop i event
  · obtain ⟨event, rfl⟩ := hown
    exact sending_own hsize.2 h hsends hlinked
  · have hother : ∀ event, input ≠ .loop i event := fun event heq => hown ⟨event, heq⟩
    obtain ⟨hsending, hsame⟩ := sending_other h hlinked hother
    refine Or.inr ⟨hsending, hsame.le, fun hwrites => ?_⟩
    cases input with
    | arrive client passthrough => cases hwrites
    | acceptor create => cases hwrites
    | worker k event => cases hwrites
    | loop k event =>
        cases event with
        | read readEvent => cases hwrites
        | write writeEvent =>
            exact absurd (of_decide_eq_true hwrites ▸ rfl) (hother (.write writeEvent))

/-! ## Whole runs -/

/-- **What is being written goes out.** In every run of the process: if from a state in which a
worker is in `tcp_write` the `send`s of this worker take something, then as many passes of it as
bytes are left bring all that had come in to the other end, whatever the other threads do. -/
theorem process_delivers (packet : Bool → (ℤ → UInt8) → ℤ → ℤ) (maxConnections : ℕ) (size : ℤ)
    (hsize : 1 ≤ size ∧ size < 2 ^ 31) (clientData serverData : ℕ → ℤ → UInt8)
    (locals : ℕ → ProxyLocals) (earlier later : List ProcessInput) (i : ℕ) (side : Side)
    (ioptr chunk sent : ℤ) (hsends : ∀ input ∈ later, SendsSome i input) :
    let s := run (processStep packet)
      (Process.init maxConnections size clientData serverData locals) earlier
    s.handover.worker i = .proxy → (s.conn i).pc = .write side ioptr chunk sent →
      (chunk - sent).toNat ≤ later.countP (writesOf i) →
        ∃ js, js <+: later ∧ Delivered s (run (processStep packet) s js) i side := by
  intro s hworker hpc hcount
  have hlinked : Linked (fun _ => True) Carried Exchanged size s :=
    run_carried packet hsize.1 maxConnections clientData serverData locals earlier
  have hsending : Sending s s size i side ioptr chunk := ⟨hlinked, hworker, rfl, ⟨sent, hpc⟩, rfl⟩
  apply @reaches_of_measure_of _ _ (processStep packet) (fun _ input => SendsSome i input)
    (fun t => Delivered s t i side) (fun t => Sending s t size i side ioptr chunk) (writesOf i)
    (fun t => unsentBytes (t.conn i).pc)
  · exact fun _ h => unsentBytes_pos h
  · exact fun _ _ h hsome => sending_step hsize h hsome
  · exact hsending
  · exact along_of_forall (fun input hmem _ => hsends input hmem) s
  · rw [hpc]
    exact hcount

/-- While five bytes go out two at a time the next client arrives. -/
theorem process_delivers_one_message :
    let earlier : List ProcessInput :=
      .arrive 5 true :: List.replicate 7 (.acceptor ⟨0, 1, by decide⟩) ++
        [.worker 0 .run, .worker 0 .run, .worker 0 .run, .worker 0 (.connect (.connected 7)),
          .worker 0 .run, .loop 0 (.read (.ready [0, 0, 0, 1])), .loop 0 (.read .timeout),
          .loop 0 (.read (.ready [0xAA]))]
    let later : List ProcessInput :=
      [.loop 0 (.write (.sent 2)), .arrive 6 false, .loop 0 (.write (.sent 2)),
        .acceptor ⟨0, 1, by decide⟩, .loop 0 (.write (.sent 2)), .loop 0 (.read .timeout),
        .loop 0 (.write (.sent 2)), .loop 0 (.write (.sent 2))]
    let s := run (processStep fun _ _ _ => -1)
      (Process.init 4 16 (fun _ _ => 0) (fun _ _ => 0) fun _ => .start) earlier
    ∃ js, js <+: later ∧ Delivered s (run (processStep fun _ _ _ => -1) s js) 0 .client := by
  intro earlier later s
  refine process_delivers (fun _ _ _ => -1) 4 16 (by decide) (fun _ _ => 0) (fun _ _ => 0)
    (fun _ => .start) earlier later 0 .client 0 5 0 ?_ (by decide +kernel) (by decide +kernel)
    (by decide)
  intro input hmem
  simp only [later, List.mem_cons, List.not_mem_nil, or_false] at hmem
  rcases hmem with rfl | rfl | rfl | rfl | rfl | rfl | rfl | rfl <;> simp [SendsSome]

end Delivery

end SmbProxy.Analysis
