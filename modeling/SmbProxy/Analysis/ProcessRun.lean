import SmbProxy.Analysis.Forwarding
import SmbProxy.Analysis.Pairing
import SmbProxy.Interface.Process

/-!
# The process keeps its connections apart

Seen through its hand-over every step of the process is a run of `handoverStep`: a step
of a proxy loop is some traffic, and the end of the connection when it leaves the loop
(`processStep_refines`). So what holds of the hand-over holds of the process.

A worker in the proxy loop has the sockets of a pair, which no other worker has. Before the
loop both are unused, and behind it nothing happens to them any more. So what one proxy
loop keeps from its start on (`ConnRule`) holds of every connection of the process, in every
order of the steps (`run_linked`).
-/

set_option autoImplicit false

namespace SmbProxy.Analysis

open SmbProxy.Library SmbProxy.Model SmbProxy.Interface

/-! ## The hand-over of the process -/

section Refinement

variable {packet : Bool → (ℤ → UInt8) → ℤ → ℤ} {s : Process} {i : ℕ}

/-- In the proxy loop the rings of a context change. -/
theorem handoverStep_traffic {s : Handover} (hpc : s.worker i = .proxy) (clientRing serverRing : Ioring) :
    handoverStep s (.worker i (.traffic clientRing serverRing)) =
      s.update i fun ctx => { ctx with clientRing := clientRing, serverRing := serverRing } := by
  unfold handoverStep Handover.workerStep
  simp only [hpc]

/-- From the proxy loop a worker comes to the test of its client socket. -/
theorem handoverStep_ending {s : Handover} (hpc : s.worker i = .proxy) :
    handoverStep s (.worker i .ending) = s.workerAt i .testClient := by
  unfold handoverStep Handover.workerStep
  simp only [hpc]

/-- What a proxy loop writes back is its traffic. -/
theorem put_handover (hpc : s.handover.worker i = .proxy) (c : Conn) :
    (s.put i c).handover = handoverStep s.handover
      (.worker i (.traffic (c.half .client).ring (c.half .server).ring)) :=
  (handoverStep_traffic hpc _ _).symm

/-- **A step of the process is a run of the hand-over.** -/
theorem processStep_refines (packet : Bool → (ℤ → UInt8) → ℤ → ℤ) (s : Process)
    (input : ProcessInput) :
    ∃ steps, (processStep packet s input).handover = run handoverStep s.handover steps := by
  cases input with
  | arrive client passthrough => exact ⟨[.arrive client passthrough], rfl⟩
  | acceptor create => exact ⟨[.acceptor create], rfl⟩
  | worker i event =>
      unfold processStep Process.workerStep
      dsimp only
      split_ifs
      · exact ⟨[], rfl⟩
      · exact ⟨[.worker i event], rfl⟩
      · exact ⟨[.worker i event], rfl⟩
  | loop i event =>
      unfold processStep Process.loopStep
      dsimp only
      by_cases hpc : s.handover.worker i = .proxy
      · rw [if_pos hpc]
        generalize step packet (s.conn i) event.input = c
        have htraffic := put_handover hpc c
        have hpc' : (s.put i c).handover.worker i = .proxy := hpc
        split_ifs
        · refine ⟨[.worker i (.traffic (c.half .client).ring (c.half .server).ring),
            .worker i .ending], ?_⟩
          rw [run_cons, run_cons, run_nil, ← htraffic, handoverStep_ending hpc']
        · exact ⟨[.worker i (.traffic (c.half .client).ring (c.half .server).ring)], htraffic⟩
      · rw [if_neg hpc]
        exact ⟨[], rfl⟩

/-- The invariants of the hand-over hold with the proxy loops running. -/
theorem inv_processStep (h : Inv s.handover) (hpairs : PairInv s.handover) (input : ProcessInput) :
    Inv (processStep packet s input).handover ∧ PairInv (processStep packet s input).handover := by
  obtain ⟨steps, hsteps⟩ := processStep_refines packet s input
  rw [hsteps]
  exact run_invariant (fun s => Inv s ∧ PairInv s)
    (fun _ input h => ⟨inv_handoverStep h.1 input, pairs_handoverStep h.1 h.2 input⟩) ⟨h, hpairs⟩ steps

end Refinement

/-! ## From one connection to all -/

/-- What is shown of one proxy loop alone. `Mode` are the modes a client may be accepted
with, `Allowed` what may happen to a connection, `Live` holds of a connection in the loop, and
`Done` is what is left of it: it speaks of the client's socket with its judged blocks, and of the
server's. -/
structure ConnRule (packet : Bool → (ℤ → UInt8) → ℤ → ℤ) (Mode : Bool → Prop)
    (Allowed : Conn → LoopEvent → Prop) (Live : Conn → Prop)
    (Done : Socket → List (List UInt8 × ℤ) → Socket → List (List UInt8 × ℤ) → Prop) : Prop where
  off : Mode false
  start : ∀ (c : Conn) mode, (∀ side, 1 ≤ (c.half side).ring.size) → Mode mode → Live (c.start mode)
  step : ∀ c event, Live c → Allowed c event → Live (Model.step packet c (LoopEvent.input event))
  size : ∀ c event side, Live c →
    ((Model.step packet c (LoopEvent.input event)).half side).ring.size = (c.half side).ring.size
  mode : ∀ c mode, Live c → Mode mode → Live { c with passthrough := mode }
  done : ∀ c, Live c →
    Done (c.socket .client) (c.judged .client) (c.socket .server) (c.judged .server)
  empty : Done ⟨[], []⟩ [] ⟨[], []⟩ []

/-- The modes in the contexts and at the acceptor. -/
structure ModesIn (Mode : Bool → Prop) (s : Handover) : Prop where
  ctx : ∀ i, Mode (s.ctx i).passthrough
  acceptor : ∀ pc client passthrough i, s.acceptor = .start pc client passthrough i → Mode passthrough

/-- Nothing has passed through the socket. -/
def Unused (s : Process) (socket : ℤ) : Prop := s.socket socket = ⟨[], []⟩ ∧ s.judged socket = []

/-- The socket is not one end of a connection. -/
def Alone (s : Handover) (socket : ℤ) : Prop :=
  ∀ i other, .openServer i socket other ∉ s.log ∧ .openServer i other socket ∉ s.log

/-- **The invariant of the process.** -/
structure Linked (Mode : Bool → Prop) (Live : Conn → Prop)
    (Done : Socket → List (List UInt8 × ℤ) → Socket → List (List UInt8 × ℤ) → Prop) (size : ℤ)
    (s : Process) : Prop where
  inv : Inv s.handover
  pairs : PairInv s.handover
  modes : ModesIn Mode s.handover
  size : ∀ i side, ((s.handover.ctx i).ring side).size = size
  silent : ∀ socket, Alone s.handover socket → Unused s socket
  entering : ∀ i, s.handover.worker i = .testServer →
    (s.handover.ctx i).serverSocket ≠ invalidSocket →
      ∀ side, Unused s ((s.handover.ctx i).socket side)
  looping : ∀ i, s.handover.worker i = .proxy → Live (s.conn i)
  done : ∀ i client server, .openServer i client server ∈ s.handover.log →
    Done (s.socket client) (s.judged client) (s.socket server) (s.judged server)

section Linked

variable {packet : Bool → (ℤ → UInt8) → ℤ → ℤ} {Mode : Bool → Prop}
  {Allowed : Conn → LoopEvent → Prop} {Live : Conn → Prop}
  {Done : Socket → List (List UInt8 × ℤ) → Socket → List (List UInt8 × ℤ) → Prop} {size : ℤ}
  {s : Process} {i j : ℕ} {client server : ℤ}

/-- At the beginning nothing is connected. -/
theorem linked_init (rule : ConnRule packet Mode Allowed Live Done) (maxConnections : ℕ) (size : ℤ)
    (clientData serverData : ℕ → ℤ → UInt8) (locals : ℕ → ProxyLocals) :
    Linked Mode Live Done size
      (Process.init maxConnections size clientData serverData locals) where
  inv := inv_init maxConnections size clientData serverData
  pairs := pairs_init maxConnections size clientData serverData
  modes := ⟨fun _ => rule.off, fun _ _ _ _ h => nomatch h⟩
  size i side := by cases side <;> rfl
  silent _ _ := ⟨rfl, rfl⟩
  entering i h := nomatch h
  looping i h := nomatch h
  done i client server h := nomatch h

/-! ### The sockets of a pair -/

/-- A worker that has a server socket is at the two ends of a pair. -/
theorem paired_of_serving (h : Inv s.handover) (hserving : serving (s.handover.worker i) = true)
    (hinside : inside (s.handover.worker i) = true)
    (hserver : (s.handover.ctx i).serverSocket ≠ invalidSocket) :
    .openServer i ((s.handover.ctx i).socket .client) ((s.handover.ctx i).socket .server) ∈
      s.handover.log := by
  obtain ⟨hclient, -⟩ := (h.ctx i).inside hinside
  have hopen := (h.ctx i).opened hserving hserver
  rw [← hclient] at hopen
  exact hopen

/-- A worker in the proxy loop has the two ends of a pair. -/
theorem paired_of_proxy (h : Inv s.handover) (hpairs : PairInv s.handover)
    (hpc : s.handover.worker i = .proxy) :
    .openServer i ((s.handover.ctx i).socket .client) ((s.handover.ctx i).socket .server) ∈
      s.handover.log :=
  paired_of_serving h (by rw [hpc]; rfl) (by rw [hpc]; rfl) ((hpairs.ctx i).server hpc)

/-- The two ends of a pair are not the same socket. -/
theorem ends_apart (h : Inv s.handover) (hpairs : PairInv s.handover)
    (hpair : .openServer i client server ∈ s.handover.log) : client ≠ server := by
  rintro rfl
  exact installed_apart h.logged (hpairs.installed i client client hpair) hpair

/-- Two pairs are the same or have no socket in common. -/
theorem pairs_apart (h : Inv s.handover) (hpairs : PairInv s.handover) {client' server' : ℤ}
    (hi : .openServer i client server ∈ s.handover.log)
    (hj : .openServer j client' server' ∈ s.handover.log) :
    (client' = client ∧ server' = server) ∨
      (client' ≠ client ∧ client' ≠ server ∧ server' ≠ client ∧ server' ≠ server) := by
  have hclient := hpairs.installed i client server hi
  have hclient' := hpairs.installed j client' server' hj
  have hcross : client' ≠ server ∧ server' ≠ client := by
    constructor
    · rintro rfl
      exact installed_apart h.logged hclient' hi
    · rintro rfl
      exact installed_apart h.logged hclient hj
  by_cases hsame : client' = client
  · subst hsame
    exact Or.inl ⟨rfl, hpairs.once j i client' server' server hj hi⟩
  · refine Or.inr ⟨hsame, hcross.1, hcross.2, ?_⟩
    rintro rfl
    exact hsame (opened_once h.logged hj hi).2

/-- Two workers that are inside with a server socket have no socket in common. -/
theorem workers_apart (h : Inv s.handover) (hpairs : PairInv s.handover) (hij : i ≠ j)
    {client' server' : ℤ} (hi : .openServer i client server ∈ s.handover.log)
    (hj : .openServer j client' server' ∈ s.handover.log) :
    client' ≠ client ∧ client' ≠ server ∧ server' ≠ client ∧ server' ≠ server := by
  cases pairs_apart h hpairs hi hj with
  | inl hsame =>
      obtain ⟨rfl, rfl⟩ := hsame
      exact absurd (opened_once h.logged hi hj).1 hij
  | inr hapart => exact hapart

/-- A worker in `tcp_connect` has a client that is not yet paired. -/
theorem alone_of_connecting (h : Inv s.handover) (hpairs : PairInv s.handover)
    (hpc : s.handover.worker i = .connecting) :
    (s.handover.ctx i).clientSocket = s.handover.seen i ∧ Alone s.handover (s.handover.seen i) := by
  have hctx := h.ctx i
  have hpair := hpairs.ctx i
  rw [hpc] at hctx hpair
  obtain ⟨hclient, hvalid⟩ := hctx.inside rfl
  refine ⟨hclient, fun k other => ⟨?_, ?_⟩⟩
  · rw [← hclient] at hvalid ⊢
    exact hpair.unpaired hvalid rfl k other
  · rw [← hclient] at hvalid ⊢
    exact installed_apart h.logged (hctx.held hvalid)

/-- A fresh socket has no partner. -/
theorem alone_of_fresh (h : Inv s.handover) (hpairs : PairInv s.handover)
    (hfresh : s.handover.Fresh server) : Alone s.handover server := by
  have hnew := new_of_fresh h hfresh
  exact fun k other => ⟨fun hmem => hnew _ (hpairs.installed k server other hmem) rfl,
    fun hmem => hnew _ hmem rfl⟩

/-! ### A step of a thread outside the loop -/

/-- The modes in the contexts are those that clients have come with, or none. -/
theorem modesIn_handoverStep {s : Handover} (h : ModesIn Mode s) {input : HandoverInput}
    (harrive : ∀ client passthrough, input = .arrive client passthrough → Mode passthrough) :
    ModesIn Mode (handoverStep s input) := by
  cases input with
  | arrive client passthrough =>
      show ModesIn Mode (s.arrive client passthrough)
      unfold Handover.arrive
      split_ifs
      · refine ⟨h.ctx, fun _ _ _ _ hpc => ?_⟩
        cases hpc
        exact harrive client passthrough rfl
      · exact h
  | acceptor create =>
      unfold handoverStep
      cases hpc : s.acceptor with
      | idle => exact h
      | start pc client passthrough k =>
          have hmode := h.acceptor pc client passthrough k hpc
          refine ⟨fun j => ?_, fun pc' client' passthrough' k' hpc' => ?_⟩
          · by_cases hj : j = k
            · subst hj
              have hj := h.ctx j
              unfold Handover.startStep
              cases pc <;> dsimp only <;> (try split_ifs) <;>
                simp only [Handover.goto, Handover.update, Function.update_self] <;> assumption
            · rw [show (s.startStep create client passthrough k pc).ctx j = s.ctx j from
                startStep_ctx_of_ne s create client passthrough hj pc]
              exact h.ctx j
          · dsimp only at hpc'
            unfold Handover.startStep at hpc'
            cases pc <;> dsimp only at hpc' <;> (try split_ifs at hpc') <;>
              simp only [Handover.goto, AcceptorPc.start.injEq, reduceCtorEq] at hpc' <;>
              exact hpc'.2.2.1 ▸ hmode
  | worker k event =>
      have hkeeps := workerStep_keeps s k event
      refine ⟨fun j => ?_, fun pc client passthrough i hpc => ?_⟩
      · show Mode ((s.workerStep k event).ctx j).passthrough
        by_cases hj : j = k
        · subst hj
          rw [hkeeps.passthrough]
          exact h.ctx j
        · rw [hkeeps.others j hj]
          exact h.ctx j
      · have hpc' : (s.workerStep k event).acceptor = .start pc client passthrough i := hpc
        rw [hkeeps.acceptor] at hpc'
        exact h.acceptor pc client passthrough i hpc'

/-- The rings keep their sizes outside the proxy loop. -/
theorem handoverStep_size {s : Handover} {input : HandoverInput}
    (hinput : ∀ i event, input = .worker i event → s.worker i ≠ .proxy) (j : ℕ) (side : Side) :
    (((handoverStep s input).ctx j).ring side).size = ((s.ctx j).ring side).size := by
  cases input with
  | arrive client passthrough =>
      show (((s.arrive client passthrough).ctx j).ring side).size = _
      unfold Handover.arrive
      split_ifs <;> rfl
  | acceptor create =>
      unfold handoverStep
      cases hpc : s.acceptor with
      | idle => rfl
      | start pc client passthrough k =>
          by_cases hj : j = k
          · subst hj
            unfold Handover.startStep
            cases pc <;> dsimp only <;> (try split_ifs) <;>
              simp only [Handover.goto, Handover.update, Function.update_self] <;>
              cases side <;> rfl
          · rw [show (s.startStep create client passthrough k pc).ctx j = s.ctx j from
              startStep_ctx_of_ne s create client passthrough hj pc]
  | worker k event =>
      have hframe := workerStep_frame s k event
      show (((s.workerStep k event).ctx j).ring side).size = _
      by_cases hj : j = k
      · subst hj
        obtain ⟨hclient, hserver⟩ := hframe.rings (hinput j event rfl)
        cases side with
        | client =>
            show ((s.workerStep j event).ctx j).clientRing.size = _
            rw [hclient]
            rfl
        | server =>
            show ((s.workerStep j event).ctx j).serverRing.size = _
            rw [hserver]
            rfl
      · rw [(hframe.ctx j hj).1]

/-- What another thread leaves of a proxy loop: all but its mode. -/
theorem conn_of_othersKeep {s s' : Process} (hkeep : OthersKeep s.handover s'.handover i)
    (hlocals : s'.locals i = s.locals i) (hsocket : s'.socket = s.socket)
    (hjudged : s'.judged = s.judged) :
    s'.conn i = { s.conn i with passthrough := (s'.handover.ctx i).passthrough } := by
  have hring : (s'.handover.ctx i).ring = (s.handover.ctx i).ring := by
    funext side
    cases side
    · exact hkeep.clientRing
    · exact hkeep.serverRing
  have hsock : (s'.handover.ctx i).socket = (s.handover.ctx i).socket := by
    funext side
    cases side
    · exact hkeep.client
    · exact hkeep.server
  unfold Process.conn
  rw [hring, hsock, hlocals, hsocket, hjudged]

/-- A socket without a partner has had none before. -/
theorem alone_mono {s s' : Handover} (hlog : ∀ e ∈ s.log, e ∈ s'.log) {socket : ℤ}
    (h : Alone s' socket) : Alone s socket :=
  fun i other => ⟨fun hmem => (h i other).1 (hlog _ hmem), fun hmem => (h i other).2 (hlog _ hmem)⟩

/-- The sockets of a worker that has just been connected are unused. -/
theorem entering_of_step (h : Linked Mode Live Done size s) {input : HandoverInput} {s' : Handover}
    (hs' : handoverStep s.handover input = s') (hpc : s'.worker i = .testServer)
    (hserver : (s'.ctx i).serverSocket ≠ invalidSocket) (side : Side) :
    Unused s ((s'.ctx i).socket side) := by
  by_cases hown : ∃ event, input = .worker i event
  · obtain ⟨event, rfl⟩ := hown
    have hmoves := workerStep_moves s.handover i event
    have hpc' : (s.handover.workerStep i event).worker i = .testServer := by
      rw [show s.handover.workerStep i event = s' from hs']
      exact hpc
    rw [hpc'] at hmoves
    have hconnecting := connecting_of_successors hmoves
    obtain ⟨hclient, halone⟩ := alone_of_connecting h.inv h.pairs hconnecting
    have hvalid : (s.handover.ctx i).clientSocket ≠ invalidSocket := by
      rw [hclient]
      exact ((h.inv.ctx i).inside (by rw [hconnecting]; rfl)).2
    have hkept : (s'.ctx i).clientSocket = (s.handover.ctx i).clientSocket := by
      rw [← hs']
      exact handoverStep_client h.inv hvalid (by rw [hconnecting]; rfl) (.worker i event)
    have hinv' : Inv s' := hs' ▸ inv_handoverStep h.inv (.worker i event)
    cases side with
    | client =>
        show Unused s (s'.ctx i).clientSocket
        rw [hkept, hclient]
        exact h.silent _ halone
    | server =>
        -- The pair of the worker is new, for its client had none.
        have hopen := (hinv'.ctx i).opened (by rw [hpc]; rfl) hserver
        obtain ⟨hseen, -⟩ := (hinv'.ctx i).inside (by rw [hpc]; rfl)
        rw [← hseen, hkept, hclient, ← hs'] at hopen
        cases opened_of_step s.handover (.worker i event) hopen with
        | inl hold => exact absurd hold (halone i _).1
        | inr hnew =>
            obtain ⟨-, -, -, hfresh⟩ := hnew
            rw [hs'] at hfresh
            exact h.silent _ (alone_of_fresh h.inv h.pairs hfresh)
  · have hother : ∀ event, input ≠ .worker i event := fun event heq => hown ⟨event, heq⟩
    cases worker_of_other s.handover hother with
    | inl hsame =>
        rw [hs', hpc] at hsame
        obtain ⟨hclient, hvalid⟩ := (h.inv.ctx i).inside (by rw [← hsame]; rfl)
        have hkeep := others_keep h.inv (hclient ▸ hvalid) hother
        rw [hs'] at hkeep
        have hunused := h.entering i hsame.symm (by rw [← hkeep.server]; exact hserver) side
        cases side with
        | client =>
            show Unused s (s'.ctx i).clientSocket
            rw [hkeep.client]
            exact hunused
        | server =>
            show Unused s (s'.ctx i).serverSocket
            rw [hkeep.server]
            exact hunused
    | inr hwait =>
        rw [hs', hpc] at hwait
        cases hwait

/-- A worker that comes to its proxy loop starts it. -/
theorem conn_start (h : Linked Mode Live Done size s) {s' : Process}
    (hpc : s.handover.worker i = .testServer)
    (hserver : (s.handover.ctx i).serverSocket ≠ invalidSocket)
    (hctx : s'.handover.ctx i = s.handover.ctx i) (hlocals : s'.locals i = .start)
    (hsocket : s'.socket = s.socket) (hjudged : s'.judged = s.judged) :
    s'.conn i = (s'.conn i).start (s'.handover.ctx i).passthrough := by
  obtain ⟨hclient, hvalid⟩ := (h.inv.ctx i).inside (by rw [hpc]; rfl)
  obtain ⟨hclientRing, hserverRing⟩ :=
    (h.pairs.ctx i).ready (hclient ▸ hvalid) (by rw [hpc]; rfl)
  have hring : ∀ side, butilResetRing ((s.handover.ctx i).ring side) = (s.handover.ctx i).ring side := by
    intro side
    cases side
    · exact hclientRing
    · exact hserverRing
  have hunused : ∀ side, Unused s ((s.handover.ctx i).socket side) := h.entering i hpc hserver
  unfold Process.conn Conn.start
  simp only [hlocals, hsocket, hjudged, hctx, hring, ProxyLocals.start, Conn.mk.injEq, true_and,
    and_true]
  exact ⟨funext fun side => (hunused side).1, funext fun side => (hunused side).2⟩

/-- **A step of a thread outside the proxy loop keeps the connections apart.** -/
theorem linked_thread (rule : ConnRule packet Mode Allowed Live Done) (hsize : 1 ≤ size)
    (h : Linked Mode Live Done size s) (input : HandoverInput) {s' : Process}
    (hs' : s'.handover = handoverStep s.handover input) (hsocket : s'.socket = s.socket)
    (hjudged : s'.judged = s.judged)
    (harrive : ∀ client passthrough, input = .arrive client passthrough → Mode passthrough)
    (hinput : ∀ i event, input = .worker i event → s.handover.worker i ≠ .proxy)
    (hlocals : ∀ i, s.handover.worker i = .proxy → s'.locals i = s.locals i)
    (hstart : ∀ i event, input = .worker i event → s'.handover.worker i = .proxy →
      s'.locals i = .start) : Linked Mode Live Done size s' := by
  have hmodes : ModesIn Mode s'.handover := hs' ▸ modesIn_handoverStep h.modes harrive
  have hsizes : ∀ i side, ((s'.handover.ctx i).ring side).size = size := by
    intro i side
    rw [hs', handoverStep_size hinput]
    exact h.size i side
  have hunused : ∀ socket, Unused s' socket ↔ Unused s socket := by
    intro socket
    unfold Unused
    rw [hsocket, hjudged]
  refine ⟨hs' ▸ inv_handoverStep h.inv input, hs' ▸ pairs_handoverStep h.inv h.pairs input, hmodes,
    hsizes, fun socket halone => ?_, fun i hpc hserver side => ?_, fun i hpc => ?_,
    fun i client server hmem => ?_⟩
  · rw [hunused]
    apply h.silent socket
    apply alone_mono _ halone
    rw [hs']
    exact fun _ => log_mono s.handover input
  · rw [hunused]
    exact entering_of_step h hs'.symm hpc hserver side
  · by_cases hbefore : s.handover.worker i = .proxy
    · have hother : ∀ event, input ≠ .worker i event := fun event heq => hinput i event heq hbefore
      obtain ⟨hclient, hvalid⟩ := (h.inv.ctx i).inside (by rw [hbefore]; rfl)
      have hkeep := others_keep h.inv (hclient ▸ hvalid) hother
      rw [← hs'] at hkeep
      rw [conn_of_othersKeep hkeep (hlocals i hbefore) hsocket hjudged]
      exact rule.mode _ _ (h.looping i hbefore) (hmodes.ctx i)
    · rw [hs'] at hpc
      obtain ⟨htest, hserver, hctx⟩ := proxy_of_step s.handover hbefore hpc
      rw [← hs'] at hpc hctx
      -- Only its own step brings a worker to the loop.
      have hown : ∃ event, input = .worker i event := by
        by_contra hno
        have hother : ∀ event, input ≠ .worker i event := fun event heq => hno ⟨event, heq⟩
        cases worker_of_other s.handover hother with
        | inl hsame =>
            rw [← hs', hpc] at hsame
            exact hbefore hsame.symm
        | inr hwait =>
            rw [← hs', hpc] at hwait
            cases hwait
      obtain ⟨event, hevent⟩ := hown
      rw [conn_start h htest hserver hctx (hstart i event hevent hpc) hsocket hjudged]
      refine rule.start _ _ (fun side => ?_) (hmodes.ctx i)
      exact (hsizes i side).symm ▸ hsize
  · rw [hs'] at hmem
    rw [hsocket, hjudged]
    cases opened_of_step s.handover input hmem with
    | inl hold => exact h.done i client server hold
    | inr hnew =>
        obtain ⟨-, hconnecting, rfl, hfresh⟩ := hnew
        obtain ⟨-, halone⟩ := alone_of_connecting h.inv h.pairs hconnecting
        obtain ⟨hclient, hclientJudged⟩ := h.silent _ halone
        obtain ⟨hserver, hserverJudged⟩ := h.silent _ (alone_of_fresh h.inv h.pairs hfresh)
        rw [hclient, hclientJudged, hserver, hserverJudged]
        exact rule.empty

/-! ### A step of a proxy loop -/

/-- A proxy loop writes back its rings. -/
theorem put_ctx_self (s : Process) (i : ℕ) (c : Conn) :
    (s.put i c).handover.ctx i = { s.handover.ctx i with
      clientRing := (c.half .client).ring, serverRing := (c.half .server).ring } :=
  Function.update_self _ _ _

/-- It leaves the other contexts. -/
theorem put_ctx_of_ne (s : Process) (c : Conn) {i j : ℕ} (hj : j ≠ i) :
    (s.put i c).handover.ctx j = s.handover.ctx j := Function.update_of_ne hj _ _

/-- It leaves the sockets of its own. -/
theorem put_ctx_socket (s : Process) (i : ℕ) (c : Conn) :
    ((s.put i c).handover.ctx i).socket = (s.handover.ctx i).socket := by
  rw [put_ctx_self]
  funext side
  cases side <;> rfl

/-- A proxy loop finds again what it has left, in the mode of its context. -/
theorem conn_put (s : Process) (i : ℕ) (c : Conn)
    (hne : (s.handover.ctx i).socket .client ≠ (s.handover.ctx i).socket .server) :
    (s.put i c).conn i = { c with passthrough := (s.handover.ctx i).passthrough } := by
  have hctx := put_ctx_self s i c
  have hlocals : (s.put i c).locals i = ⟨fun side => (c.half side).packetState,
      fun side => (c.half side).packetRemain, c.pc⟩ := Function.update_self _ _ _
  have hhalf : ∀ side, (⟨((s.put i c).handover.ctx i).ring side, (c.half side).packetState,
      (c.half side).packetRemain⟩ : Half) = c.half side := by
    intro side
    rw [hctx]
    cases side <;> rfl
  have hrx : ∀ side, (s.put i c).socket ((s.handover.ctx i).socket side) = c.socket side := by
    intro side
    cases side with
    | client =>
        calc
          (s.put i c).socket ((s.handover.ctx i).socket .client) =
              Function.update s.socket ((s.handover.ctx i).socket .client) (c.socket .client)
                ((s.handover.ctx i).socket .client) := Function.update_of_ne hne _ _
          _ = c.socket .client := Function.update_self _ _ _
    | server => exact Function.update_self _ _ _
  have hjudged : ∀ side, (s.put i c).judged ((s.handover.ctx i).socket side) = c.judged side := by
    intro side
    cases side with
    | client =>
        calc
          (s.put i c).judged ((s.handover.ctx i).socket .client) =
              Function.update s.judged ((s.handover.ctx i).socket .client) (c.judged .client)
                ((s.handover.ctx i).socket .client) := Function.update_of_ne hne _ _
          _ = c.judged .client := Function.update_self _ _ _
    | server => exact Function.update_self _ _ _
  unfold Process.conn
  simp only [put_ctx_socket, hlocals, hhalf, hrx, hjudged]
  rw [hctx]

/-- It leaves the traffic of sockets that are not its own. -/
theorem put_socket_of_ne (s : Process) (i : ℕ) (c : Conn) {socket : ℤ}
    (hclient : socket ≠ (s.handover.ctx i).socket .client)
    (hserver : socket ≠ (s.handover.ctx i).socket .server) :
    (s.put i c).socket socket = s.socket socket ∧ (s.put i c).judged socket = s.judged socket := by
  refine ⟨?_, ?_⟩
  · calc
      (s.put i c).socket socket =
          Function.update s.socket ((s.handover.ctx i).socket .client) (c.socket .client) socket :=
        Function.update_of_ne hserver _ _
      _ = s.socket socket := Function.update_of_ne hclient _ _
  · calc
      (s.put i c).judged socket =
          Function.update s.judged ((s.handover.ctx i).socket .client) (c.judged .client) socket :=
        Function.update_of_ne hserver _ _
      _ = s.judged socket := Function.update_of_ne hclient _ _

/-- A proxy loop leaves another one as it is. -/
theorem conn_put_of_ne (h : Inv s.handover) (hpairs : PairInv s.handover)
    (hi : s.handover.worker i = .proxy) (hj : s.handover.worker j = .proxy) (hji : j ≠ i)
    (c : Conn) : (s.put i c).conn j = s.conn j := by
  obtain ⟨h1, h2, h3, h4⟩ := workers_apart h hpairs (Ne.symm hji) (paired_of_proxy h hpairs hi)
    (paired_of_proxy h hpairs hj)
  have hsame : ∀ side, (s.put i c).socket ((s.handover.ctx j).socket side) =
      s.socket ((s.handover.ctx j).socket side) ∧
      (s.put i c).judged ((s.handover.ctx j).socket side) =
        s.judged ((s.handover.ctx j).socket side) := by
    intro side
    cases side
    · exact put_socket_of_ne s i c h1 h2
    · exact put_socket_of_ne s i c h3 h4
  have hlocals : (s.put i c).locals j = s.locals j := Function.update_of_ne hji _ _
  unfold Process.conn
  simp only [put_ctx_of_ne s c hji, hlocals, hsame]

/-- A step of a proxy loop is `put`, but for where the worker is afterwards. -/
theorem loopStep_eq (hpc : s.handover.worker i = .proxy) (event : LoopEvent) :
    ∃ worker, s.loopStep packet i event =
        { s.put i (step packet (s.conn i) event.input) with
          handover := { (s.put i (step packet (s.conn i) event.input)).handover with
            worker := worker } } ∧
      (∀ j, j ≠ i → worker j = s.handover.worker j) ∧
      (worker i = .proxy ∨ worker i = .testClient) := by
  unfold Process.loopStep
  rw [if_pos hpc]
  dsimp only
  split_ifs
  · refine ⟨Function.update s.handover.worker i .testClient, rfl, fun j hj => ?_, Or.inr ?_⟩
    · exact Function.update_of_ne hj _ _
    · exact Function.update_self _ _ _
  · exact ⟨s.handover.worker, rfl, fun _ _ => rfl, Or.inl hpc⟩

/-- **A step of a proxy loop keeps the connections apart.** -/
theorem linked_loop (rule : ConnRule packet Mode Allowed Live Done)
    (h : Linked Mode Live Done size s) (i : ℕ) (event : LoopEvent)
    (hallowed : s.handover.worker i = .proxy → Allowed (s.conn i) event) :
    Linked Mode Live Done size (s.loopStep packet i event) := by
  by_cases hpc : s.handover.worker i = .proxy
  case neg =>
    unfold Process.loopStep
    rw [if_neg hpc]
    exact h
  have hlive := h.looping i hpc
  have hlive' := rule.step (s.conn i) event hlive (hallowed hpc)
  have hpair := paired_of_proxy h.inv h.pairs hpc
  have hne := ends_apart h.inv h.pairs hpair
  obtain ⟨hinv, hpairs⟩ := @inv_processStep packet s h.inv h.pairs (.loop i event)
  obtain ⟨worker, hstep, hothers, hself⟩ := @loopStep_eq packet s i hpc event
  rw [show processStep packet s (.loop i event) = s.loopStep packet i event from rfl] at hinv hpairs
  have hrings : ∀ side, ((step packet (s.conn i) event.input).half side).ring.size = size := by
    intro side
    rw [rule.size (s.conn i) event side hlive]
    exact h.size i side
  rw [hstep] at hinv hpairs ⊢
  generalize step packet (s.conn i) event.input = c at hinv hpairs hlive' hrings ⊢
  have hctx : ∀ j, j ≠ i → (s.put i c).handover.ctx j = s.handover.ctx j :=
    fun j hj => put_ctx_of_ne s c hj
  have hconn := conn_put s i c hne
  -- What has a socket in common with no pair of this worker is as it was.
  have hunused : ∀ {socket : ℤ}, socket ≠ (s.handover.ctx i).socket .client →
      socket ≠ (s.handover.ctx i).socket .server → Unused s socket → Unused (s.put i c) socket := by
    intro socket hclient hserver hsocket
    obtain ⟨hsame, hsame'⟩ := put_socket_of_ne s i c hclient hserver
    exact ⟨hsame.trans hsocket.1, hsame'.trans hsocket.2⟩
  refine ⟨hinv, hpairs, ⟨fun j => ?_, h.modes.acceptor⟩, fun j side => ?_, fun socket halone => ?_,
    fun j hj hserver side => ?_, fun j hj => ?_, fun j client server hmem => ?_⟩
  · show Mode ((s.put i c).handover.ctx j).passthrough
    by_cases hj : j = i
    · subst hj
      rw [put_ctx_self]
      exact h.modes.ctx j
    · rw [hctx j hj]
      exact h.modes.ctx j
  · show (((s.put i c).handover.ctx j).ring side).size = size
    by_cases hj : j = i
    · subst hj
      rw [put_ctx_self]
      cases side
      · exact hrings .client
      · exact hrings .server
    · rw [hctx j hj]
      exact h.size j side
  · have halone' : Alone s.handover socket := halone
    refine hunused ?_ ?_ (h.silent socket halone')
    · rintro rfl
      exact (halone' i _).1 hpair
    · rintro rfl
      exact (halone' i _).2 hpair
  · have hj' : worker j = .testServer := hj
    have hji : j ≠ i := by
      rintro rfl
      rw [hj'] at hself
      cases hself with
      | inl hin => cases hin
      | inr hout => cases hout
    have hbefore : s.handover.worker j = .testServer := (hothers j hji).symm.trans hj'
    have hserver' : (s.handover.ctx j).serverSocket ≠ invalidSocket := by
      rw [← hctx j hji]
      exact hserver
    have hpair' := paired_of_serving h.inv (by rw [hbefore]; rfl) (by rw [hbefore]; rfl) hserver'
    obtain ⟨h1, h2, h3, h4⟩ := workers_apart h.inv h.pairs (Ne.symm hji) hpair hpair'
    have hentering := h.entering j hbefore hserver' side
    show Unused (s.put i c) (((s.put i c).handover.ctx j).socket side)
    rw [hctx j hji]
    cases side
    · exact hunused h1 h2 hentering
    · exact hunused h3 h4 hentering
  · have hj' : worker j = .proxy := hj
    show Live ((s.put i c).conn j)
    by_cases hji : j = i
    · subst hji
      rw [hconn]
      exact rule.mode c _ hlive' (h.modes.ctx j)
    · have hbefore : s.handover.worker j = .proxy := (hothers j hji).symm.trans hj'
      have hconnj := conn_put_of_ne h.inv h.pairs hpc hbefore hji c
      rw [hconnj]
      exact h.looping j hbefore
  · have hmem' : .openServer j client server ∈ s.handover.log := hmem
    show Done ((s.put i c).socket client) ((s.put i c).judged client) ((s.put i c).socket server)
      ((s.put i c).judged server)
    cases pairs_apart h.inv h.pairs hpair hmem' with
    | inl hsame =>
        obtain ⟨rfl, rfl⟩ := hsame
        have hdone := rule.done _ (rule.mode c (s.handover.ctx i).passthrough hlive' (h.modes.ctx i))
        rw [← hconn] at hdone
        unfold Process.conn at hdone
        rw [put_ctx_socket] at hdone
        exact hdone
    | inr hapart =>
        obtain ⟨h1, h2, h3, h4⟩ := hapart
        obtain ⟨hclient, hclientJudged⟩ := put_socket_of_ne s i c h1 h2
        obtain ⟨hserver, hserverJudged⟩ := put_socket_of_ne s i c h3 h4
        rw [hclient, hclientJudged, hserver, hserverJudged]
        exact h.done j client server hmem'

/-! ### Whole runs -/

/-- The mode of a client that arrives, and what may happen to a connection. -/
def Permitted (Mode : Bool → Prop) (Allowed : Conn → LoopEvent → Prop) (s : Process) :
    ProcessInput → Prop
  | .arrive _ passthrough => Mode passthrough
  | .loop i event => s.handover.worker i = .proxy → Allowed (s.conn i) event
  | _ => True

/-- Anything may happen to a connection. -/
def AnyEvent (_ : Conn) (_ : LoopEvent) : Prop := True

/-- Where every client comes with its mode. -/
theorem permitted_of_modes {s : Process} {inputs : List ProcessInput}
    (hmodes : ∀ client passthrough, .arrive client passthrough ∈ inputs → Mode passthrough) :
    Along (processStep packet) (Permitted Mode AnyEvent) s inputs := by
  refine along_of_forall (fun input hmem s => ?_) s
  cases input with
  | arrive client passthrough => exact hmodes client passthrough hmem
  | acceptor create => trivial
  | worker i event => trivial
  | loop i event => exact fun _ => trivial

/-- Where every client comes with its mode and every header is taken for its length. -/
theorem permitted_of_lengths {s : Process} {inputs : List ProcessInput}
    (hmodes : ∀ client passthrough, .arrive client passthrough ∈ inputs → Mode passthrough)
    (hlengths : Along (processStep packet) LengthsTaken s inputs) :
    Along (processStep packet) (Permitted Mode LengthTaken) s inputs := by
  refine along_mono (fun s input h => ?_) (along_and (permitted_of_modes hmodes) hlengths)
  cases input with
  | arrive client passthrough => exact h.1
  | acceptor create => trivial
  | worker i event => trivial
  | loop i event => exact h.2

/-- **Every step keeps the connections apart.** -/
theorem linked_step (rule : ConnRule packet Mode Allowed Live Done) (hsize : 1 ≤ size)
    (h : Linked Mode Live Done size s) {input : ProcessInput}
    (hpermitted : Permitted Mode Allowed s input) :
    Linked Mode Live Done size (processStep packet s input) := by
  cases input with
  | arrive client passthrough =>
      refine linked_thread rule hsize h (.arrive client passthrough) rfl rfl rfl
        (fun _ _ heq => ?_) (fun _ _ heq => nomatch heq) (fun _ _ => rfl) fun _ _ heq => nomatch heq
      cases heq
      exact hpermitted
  | acceptor create =>
      exact linked_thread rule hsize h (.acceptor create) rfl rfl rfl
        (fun _ _ heq => nomatch heq) (fun _ _ heq => nomatch heq) (fun _ _ => rfl)
        fun _ _ heq => nomatch heq
  | worker i event =>
      show Linked Mode Live Done size (s.workerStep i event)
      unfold Process.workerStep
      by_cases hpc : s.handover.worker i = .proxy
      · rw [if_pos hpc]
        exact h
      rw [if_neg hpc]
      have hinput : ∀ j event', HandoverInput.worker i event = .worker j event' →
          s.handover.worker j ≠ .proxy := by
        intro j event' heq
        cases heq
        exact hpc
      dsimp only
      split_ifs with henter
      · refine linked_thread rule hsize h (.worker i event) rfl rfl rfl
          (fun _ _ heq => nomatch heq) hinput (fun j hj => ?_) fun j event' heq _ => ?_
        · have hne : j ≠ i := by
            rintro rfl
            exact hpc hj
          exact Function.update_of_ne hne _ _
        · cases heq
          exact Function.update_self _ _ _
      · refine linked_thread rule hsize h (.worker i event) rfl rfl rfl
          (fun _ _ heq => nomatch heq) hinput (fun _ _ => rfl) fun j event' heq hj => ?_
        cases heq
        exact absurd hj henter
  | loop i event => exact linked_loop rule h i event hpermitted

/-- **What one proxy loop keeps holds of every connection of the process.** -/
theorem run_linked (rule : ConnRule packet Mode Allowed Live Done) (hsize : 1 ≤ size)
    (maxConnections : ℕ) (clientData serverData : ℕ → ℤ → UInt8) (locals : ℕ → ProxyLocals)
    {inputs : List ProcessInput}
    (hpermitted : Along (processStep packet) (Permitted Mode Allowed)
      (Process.init maxConnections size clientData serverData locals) inputs) :
    Linked Mode Live Done size (run (processStep packet)
      (Process.init maxConnections size clientData serverData locals) inputs) :=
  run_invariant_of (Permitted Mode Allowed) (Linked Mode Live Done size)
    (fun _ _ h hpermitted => linked_step rule hsize h hpermitted)
    (linked_init rule maxConnections size clientData serverData locals) hpermitted

end Linked

end SmbProxy.Analysis
