import SmbProxy.Analysis.ProcessRun

/-!
# The process relays

The mode of a context is set behind its client, so a connection can change its mode while it
runs. What it forwards does not depend on the mode: between two writes the flow of a
direction is a flow in either mode (`flows_of_carried`). So every connection forwards, and by
`run_linked` every connection of the process does.
-/

set_option autoImplicit false

namespace SmbProxy.Analysis

open SmbProxy.Library SmbProxy.Model SmbProxy.Interface

/-! ## A connection whose mode may change -/

section Carried

variable {c : Conn} {packet : Bool → (ℤ → UInt8) → ℤ → ℤ}

/-- The two flows of a connection, whatever its mode has been so far. -/
def Carried (c : Conn) : Prop :=
  ∃ passthrough judged, Flows { c with passthrough := passthrough, judged := judged }

/-- Between two writes the history of a connection does not bind it to a mode. -/
theorem flows_of_carried (h : Carried c) {side : Side} (hpc : c.pc = .read side) :
    ∃ judged, Flows { c with judged := judged } := by
  obtain ⟨passthrough, judged, hflows⟩ := h
  refine ⟨fun side => [((c.socket side.peer).tx, 0)], fun side' => ?_⟩
  have hflow := hflows side'
  simp only [hpc, phaseOf] at hflow ⊢
  obtain ⟨hwaiting, hrx, -⟩ := hflow
  exact .waiting hwaiting hrx fun _ => by simp

/-- A read or a pass of `tcp_write` does nothing but in its place. -/
theorem step_input (packet : Bool → (ℤ → UInt8) → ℤ → ℤ) (c : Conn) (event : LoopEvent) :
    step packet c event.input = c ∨
      (∃ readEvent side, event = .read readEvent ∧ c.pc = .read side) ∨
      ∃ writeEvent side ioptr chunk sent, event = .write writeEvent ∧
        c.pc = .write side ioptr chunk sent := by
  cases event with
  | read readEvent =>
      cases hpc : c.pc with
      | read side => exact Or.inr (Or.inl ⟨readEvent, side, rfl, rfl⟩)
      | write side ioptr chunk sent =>
          left
          simp only [LoopEvent.input, step, hpc]
      | idle last =>
          left
          simp only [LoopEvent.input, step, hpc]
  | write writeEvent =>
      cases hpc : c.pc with
      | write side ioptr chunk sent =>
          exact Or.inr (Or.inr ⟨writeEvent, side, ioptr, chunk, sent, rfl, rfl⟩)
      | read side =>
          left
          simp only [LoopEvent.input, step, hpc]
      | idle last =>
          left
          simp only [LoopEvent.input, step, hpc]

/-- **A step of the proxy loop keeps both directions flowing**, in whatever mode. -/
theorem carried_step (h : Carried c) (event : LoopEvent) :
    Carried (step packet c event.input) := by
  rcases step_input packet c event with
    hsame | ⟨readEvent, side, rfl, hpc⟩ | ⟨writeEvent, side, ioptr, chunk, sent, rfl, hpc⟩
  · rw [hsame]
    exact h
  · obtain ⟨judged, hflows⟩ := flows_of_carried h hpc
    have hstep := flows_step packet hflows (.read readEvent)
    unfold step at hstep
    unfold LoopEvent.input step
    simp only [hpc] at hstep ⊢
    exact ⟨_, _, hstep⟩
  · -- A write does not look at the mode.
    obtain ⟨passthrough, judged, hflows⟩ := h
    have hstep := flows_step packet hflows (.write writeEvent)
    unfold step at hstep
    unfold LoopEvent.input step
    simp only [hpc] at hstep ⊢
    exact ⟨_, _, hstep⟩

/-- A step leaves the size of the rings. -/
theorem carried_size (h : Carried c) (event : LoopEvent) (side : Side) :
    ((step packet c event.input).half side).ring.size = (c.half side).ring.size := by
  rcases step_half packet c event.input side with
    heq | heq | ⟨readEvent, isclient, -, hpc, heq⟩ | ⟨writeEvent, ioptr, chunk, sent, -, heq⟩
  · rw [heq]
  · rw [heq]
    rfl
  · obtain ⟨judged, hflows⟩ := flows_of_carried h hpc
    rw [heq, halfRead_size (waiting_of_flows hflows hpc side)]
  · rw [heq, (halfWrite_half _ _ _ _ _).1]

/-- A connection forwards in whatever mode. -/
theorem forwards_of_carried (h : Carried c) (side : Side) : Forwards c side := by
  obtain ⟨passthrough, judged, hflows⟩ := h
  have hforwards := forwards_of_flow (hflows side)
  exact ⟨hforwards.sent, hforwards.unsent, hforwards.block⟩

/-- A connection starts in whatever mode. -/
theorem carried_start (c : Conn) (mode : Bool) (hsize : ∀ side, 1 ≤ (c.half side).ring.size) :
    Carried (c.start mode) :=
  ⟨mode, fun _ => [], fun side => flow_start (hsize side) mode⟩

end Carried

/-! ## Every connection of the process -/

section Process

variable (packet : Bool → (ℤ → UInt8) → ℤ → ℤ)

/-- A pair of sockets each of which has been sent what was received from the other. -/
def Exchanged (client : Socket) (_ : List (List UInt8 × ℤ)) (server : Socket)
    (_ : List (List UInt8 × ℤ)) : Prop :=
  server.tx <+: client.rx ∧ client.tx <+: server.rx

/-- What every proxy loop keeps, in any mode. -/
theorem carried_rule {Mode : Bool → Prop} (hoff : Mode false) :
    ConnRule packet Mode AnyEvent Carried Exchanged where
  off := hoff
  start c mode hsize _ := carried_start c mode hsize
  step c event h _ := carried_step h event
  size c event side h := carried_size h event side
  mode c mode h _ := by
    obtain ⟨passthrough, judged, hflows⟩ := h
    exact ⟨passthrough, judged, hflows⟩
  done c h := ⟨(forwards_of_carried h .client).sent, (forwards_of_carried h .server).sent⟩
  empty := ⟨List.nil_prefix, List.nil_prefix⟩

/-- **Every connection of the process is carried**, in every run. -/
theorem run_carried {size : ℤ} (hsize : 1 ≤ size) (maxConnections : ℕ)
    (clientData serverData : ℕ → ℤ → UInt8) (locals : ℕ → ProxyLocals)
    (inputs : List ProcessInput) :
    Linked (fun _ => True) Carried Exchanged size (run (processStep packet)
      (Process.init maxConnections size clientData serverData locals) inputs) :=
  run_linked (carried_rule packet trivial) hsize maxConnections clientData serverData locals
    (permitted_of_modes fun _ _ _ => trivial)

/-- Connections that are apart and carried are relayed. -/
theorem relayed_of_linked {size : ℤ} {s : Process}
    (h : Linked (fun _ => True) Carried Exchanged size s) : Relayed s where
  one_server client server server' := by
    rintro ⟨i, hi⟩ ⟨j, hj⟩
    exact h.pairs.once i j client server server' hi hj
  one_client client client' server := by
    rintro ⟨i, hi⟩ ⟨j, hj⟩
    exact (opened_once h.inv.logged hi hj).2
  apart client server other := by
    rintro ⟨i, hi⟩ ⟨j, hj⟩
    exact installed_apart h.inv.logged (h.pairs.installed j server other hj) hi
  to_server client server := by
    rintro ⟨i, hi⟩
    exact (h.done i client server hi).1
  to_client client server := by
    rintro ⟨i, hi⟩
    exact (h.done i client server hi).2
  silent socket halone := by
    have hunused := h.silent socket fun i other =>
      ⟨fun hmem => (halone other).1 ⟨i, hmem⟩, fun hmem => (halone other).2 ⟨i, hmem⟩⟩
    rw [hunused.1]
    exact ⟨rfl, rfl⟩
  kept i hpc side := forwards_of_carried (h.looping i hpc) side

/-- **The process keeps its connections apart and relays each of them.** For every number of
contexts, every order of the steps of all threads, every outcome of the system calls, every
verdict function and every mode of the clients. -/
theorem process_relays (maxConnections : ℕ) (size : ℤ) (hsize : 1 ≤ size)
    (clientData serverData : ℕ → ℤ → UInt8) (locals : ℕ → ProxyLocals)
    (inputs : List ProcessInput) :
    Relayed (run (processStep packet)
      (Process.init maxConnections size clientData serverData locals) inputs) :=
  relayed_of_linked (run_carried packet hsize maxConnections clientData serverData locals inputs)

/-- Of a message of a client one part is sent on, and an answer comes back. -/
theorem process_relays_one_client :
    let inputs : List ProcessInput :=
      .arrive 5 true :: List.replicate 7 (.acceptor ⟨0, 1, by decide⟩) ++
        [.worker 0 .run, .worker 0 .run, .worker 0 .run, .worker 0 (.connect (.connected 7)),
          .worker 0 .run, .loop 0 (.read (.ready [0, 0, 0, 1])), .loop 0 (.read (.ready [0, 0, 0, 0])),
          .loop 0 (.read (.ready [0xAA])), .loop 0 (.write (.sent 2)), .loop 0 (.write (.sent 9)),
          .loop 0 (.read .wouldBlock)]
    let s := run (processStep fun _ _ _ => -1)
      (Process.init 4 16 (fun _ _ => 0) (fun _ _ => 0) fun _ => .start) inputs
    Paired s 5 7 ∧ (s.socket 7).tx = [0, 0, 0, 1, 0xAA] ∧ (s.socket 7).rx = [0, 0, 0, 0] ∧
      Relayed s := by
  intro inputs s
  have hrelayed := process_relays (fun _ _ _ => -1) 4 16 (by decide) (fun _ _ => 0) (fun _ _ => 0)
    (fun _ => .start) inputs
  exact ⟨⟨0, by decide +kernel⟩, by decide +kernel, by decide +kernel, hrelayed⟩

end Process

end SmbProxy.Analysis
