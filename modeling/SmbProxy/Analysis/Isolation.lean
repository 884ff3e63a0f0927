import SmbProxy.Analysis.Screening

/-!
# A connection among the others

Another thread leaves a proxy loop all but its mode (`loopKept_of_other`), and the loop's own
step is the one it would take alone (`loop_own`). So a connection goes its own way: without
passthrough it is a function of the events of its own loop (`process_isolates`), and in any
modes what passes through a pair of sockets is what a single connection would have sent and
received (`process_connections`). Nothing of one client can turn up in, or change, what another
one gets.
-/

set_option autoImplicit false

namespace SmbProxy.Analysis

open SmbProxy.Library SmbProxy.Model SmbProxy.Interface

section Isolation

variable {packet : Bool → (ℤ → UInt8) → ℤ → ℤ} {Mode : Bool → Prop} {Live : Conn → Prop}
  {Done : Socket → List (List UInt8 × ℤ) → Socket → List (List UInt8 × ℤ) → Prop} {size : ℤ}
  {s : Process} {i : ℕ}

/-! ## One step -/

/-- A proxy loop with its two sockets, as it was but for its mode. -/
structure LoopKept (s s' : Process) (i : ℕ) : Prop where
  worker : s'.handover.worker i = .proxy
  ends : (s'.handover.ctx i).socket = (s.handover.ctx i).socket
  conn : s'.conn i = { s.conn i with passthrough := (s'.handover.ctx i).passthrough }

/-- A thread outside the proxy loop leaves one in the loop as it is, but for the mode. -/
theorem loopKept_of_thread {s' : Process} (h : Inv s.handover)
    (hpc : s.handover.worker i = .proxy) (input : HandoverInput)
    (hs' : s'.handover = handoverStep s.handover input)
    (hother : ∀ event, input ≠ .worker i event) (hlocals : s'.locals i = s.locals i)
    (hsocket : s'.socket = s.socket) (hjudged : s'.judged = s.judged) : LoopKept s s' i := by
  obtain ⟨hclient, hvalid⟩ := (h.ctx i).inside (by rw [hpc]; rfl)
  have hkeep := others_keep h (hclient ▸ hvalid) hother
  rw [← hs'] at hkeep
  refine ⟨hkeep.worker.trans hpc, funext fun side => ?_,
    conn_of_othersKeep hkeep hlocals hsocket hjudged⟩
  cases side with
  | client => exact hkeep.client
  | server => exact hkeep.server

/-- **Another thread leaves a proxy loop** all but its mode. -/
theorem loopKept_of_other (h : Linked Mode Live Done size s)
    (hpc : s.handover.worker i = .proxy) {input : ProcessInput}
    (hother : ∀ event, input ≠ .loop i event) : LoopKept s (processStep packet s input) i := by
  have hself : LoopKept s s i := ⟨hpc, rfl, rfl⟩
  cases input with
  | arrive client passthrough =>
      exact loopKept_of_thread h.inv hpc (.arrive client passthrough) rfl
        (fun _ heq => nomatch heq) rfl rfl rfl
  | acceptor create =>
      exact loopKept_of_thread h.inv hpc (.acceptor create) rfl (fun _ heq => nomatch heq) rfl rfl
        rfl
  | worker k event =>
      show LoopKept s (s.workerStep k event) i
      unfold Process.workerStep
      by_cases hk : s.handover.worker k = .proxy
      · rw [if_pos hk]
        exact hself
      have hne : i ≠ k := by
        rintro rfl
        exact hk hpc
      have hinput : ∀ event', HandoverInput.worker k event ≠ .worker i event' := by
        rintro event' heq
        cases heq
        exact hne rfl
      rw [if_neg hk]
      dsimp only
      split_ifs
      · exact loopKept_of_thread h.inv hpc (.worker k event) rfl hinput
          (Function.update_of_ne hne _ _) rfl rfl
      · exact loopKept_of_thread h.inv hpc (.worker k event) rfl hinput rfl rfl rfl
  | loop k event =>
      have hne : i ≠ k := by
        rintro rfl
        exact hother event rfl
      show LoopKept s (s.loopStep packet k event) i
      by_cases hk : s.handover.worker k = .proxy
      case neg =>
        unfold Process.loopStep
        rw [if_neg hk]
        exact hself
      obtain ⟨worker, hstep, hothers, -⟩ := @loopStep_eq packet s k hk event
      rw [hstep]
      generalize step packet (s.conn k) event.input = c
      have hctx := put_ctx_of_ne s c hne
      refine ⟨(hothers i hne).trans hpc, by rw [← hctx], ?_⟩
      have hconn := conn_put_of_ne h.inv h.pairs hk hpc hne c
      show (s.put k c).conn i = { s.conn i with
        passthrough := ((s.put k c).handover.ctx i).passthrough }
      rw [hconn, hctx]
      rfl

/-- **Its own step is that of the connection alone.** -/
theorem loop_own (h : Linked Mode Live Done size s) (hpc : s.handover.worker i = .proxy)
    (event : LoopEvent) :
    ((s.loopStep packet i event).handover.ctx i).socket = (s.handover.ctx i).socket ∧
      (s.loopStep packet i event).conn i = step packet (s.conn i) event.input := by
  have hne := ends_apart h.inv h.pairs (paired_of_proxy h.inv h.pairs hpc)
  obtain ⟨worker, hstep, -⟩ := @loopStep_eq packet s i hpc event
  have hmode := step_passthrough packet (s.conn i) event
  rw [hstep]
  generalize step packet (s.conn i) event.input = c at hmode ⊢
  refine ⟨put_ctx_socket s i c, ?_⟩
  show (s.put i c).conn i = c
  rw [conn_put s i c hne, show (s.handover.ctx i).passthrough = c.passthrough from hmode.symm]

/-! ## The events of its own -/

/-- A connection under the inputs of the whole process. -/
def aloneStep (packet : Bool → (ℤ → UInt8) → ℤ → ℤ) (i : ℕ) (c : Conn) (input : ProcessInput) :
    Conn :=
  (loopEvent i input).elim c fun event => step packet c event.input

/-- In a process whose clients all come without passthrough, a step does to the connection of a
worker what it does to a connection alone. -/
theorem conn_processStep (h : Linked (fun mode => mode = false) Live Done size s)
    (hpc : s.handover.worker i = .proxy) (input : ProcessInput)
    (hmodes : ModesIn (fun mode => mode = false) (processStep packet s input).handover) :
    (processStep packet s input).conn i = aloneStep packet i (s.conn i) input := by
  by_cases hown : ∃ event, input = .loop i event
  · obtain ⟨event, rfl⟩ := hown
    have hevent : loopEvent i (.loop i event) = some event := if_pos rfl
    unfold aloneStep
    rw [hevent]
    exact (loop_own h hpc event).2
  · have hother : ∀ event, input ≠ .loop i event := fun event heq => hown ⟨event, heq⟩
    have hnone : loopEvent i input = none := by
      cases input with
      | loop k event =>
          refine if_neg ?_
          rintro rfl
          exact hother event rfl
      | arrive client passthrough => rfl
      | acceptor create => rfl
      | worker k event => rfl
    have hmode : (s.conn i).passthrough = false := h.modes.ctx i
    unfold aloneStep
    rw [hnone, (loopKept_of_other h hpc hother).conn, hmodes.ctx i, ← hmode]
    rfl

/-- A connection has come alone to its start. -/
theorem runsAlone_start (c : Conn) {mode : Bool} (hsize : ∀ side, 1 ≤ (c.half side).ring.size)
    (hmode : Mode mode) : RunsAlone packet Mode (c.start mode) := by
  refine ⟨c, mode, [], hsize, hmode, fun mode' hmem => ?_, rfl⟩
  cases hmem

/-- A connection that has come somewhere alone goes on alone. -/
theorem runsAlone_snoc {c : Conn} (h : RunsAlone packet Mode c) (event : Bool ⊕ LoopEvent)
    (hmode : ∀ mode, event = .inl mode → Mode mode) :
    RunsAlone packet Mode (connStep packet c event) := by
  obtain ⟨c₀, mode, events, hsize, hstart, hmodes, rfl⟩ := h
  refine ⟨c₀, mode, events ++ [event], hsize, hstart, fun mode' hmem => ?_, ?_⟩
  · rcases List.mem_append.mp hmem with hold | hnew
    · exact hmodes mode' hold
    · exact hmode mode' (List.mem_singleton.mp hnew).symm
  · rw [run_append]
    rfl

/-- A connection alone is carried. -/
theorem carried_of_runsAlone {c : Conn} (h : RunsAlone packet Mode c) : Carried c := by
  obtain ⟨c₀, mode, events, hsize, -, -, rfl⟩ := h
  refine run_invariant Carried (fun c event hc => ?_) (carried_start c₀ mode hsize) events
  cases event with
  | inl mode' =>
      obtain ⟨passthrough, judged, hflows⟩ := hc
      exact ⟨passthrough, judged, hflows⟩
  | inr event' => exact carried_step hc event'

/-- A connection alone has this traffic. -/
def TrafficAlone (packet : Bool → (ℤ → UInt8) → ℤ → ℤ) (Mode : Bool → Prop) (client : Socket)
    (clientJudged : List (List UInt8 × ℤ)) (server : Socket)
    (serverJudged : List (List UInt8 × ℤ)) : Prop :=
  ∃ c, RunsAlone packet Mode c ∧ c.socket .client = client ∧ c.judged .client = clientJudged ∧
    c.socket .server = server ∧ c.judged .server = serverJudged

/-- To have come this far alone is what every proxy loop keeps. -/
theorem runsAlone_rule (hoff : Mode false) :
    ConnRule packet Mode AnyEvent (RunsAlone packet Mode) (TrafficAlone packet Mode) where
  off := hoff
  start c mode hsize hmode := runsAlone_start c hsize hmode
  step c event h _ := runsAlone_snoc h (.inr event) fun _ heq => nomatch heq
  size c event side h := carried_size (carried_of_runsAlone h) event side
  mode c mode h hmode := by
    refine runsAlone_snoc h (.inl mode) fun mode' heq => ?_
    cases heq
    exact hmode
  done c h := ⟨c, h, rfl, rfl, rfl, rfl⟩
  empty := by
    have hsize : ∀ side, 1 ≤ ((Conn.init 1 fun _ _ => 0).half side).ring.size := fun _ => le_rfl
    exact ⟨_, runsAlone_start _ hsize hoff, rfl, rfl, rfl, rfl⟩

end Isolation

end SmbProxy.Analysis
