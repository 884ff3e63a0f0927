import SmbProxy.Analysis.WorkerSteps

/-!
# A client has one server socket

Before its worker has called `tcp_connect` no server socket has been opened for a client,
and afterwards it is never waited for again, so a client is paired once. Until its worker
enters the proxy loop both rings of its context are as `butil_reset_ring` leaves them:
the acceptor resets them before it sets the client, and keeps off afterwards. Both facts
are about every order of the steps (`pairs_handoverStep`).
-/

set_option autoImplicit false

namespace SmbProxy.Analysis

open SmbProxy.Library SmbProxy.Model SmbProxy.Interface

/-- The worker has been in `tcp_connect` for the client of its context. -/
def connected : WorkerPc → Bool
  | .testServer | .closeEarly | .clearEarly => true
  | .proxy | .testClient | .closeClient | .clearClient => true
  | _ => false

/-- The worker has been in the proxy loop for the client of its context. -/
def used : WorkerPc → Bool
  | .proxy | .testClient | .closeClient | .clearClient => true
  | _ => false

/-- Both rings are as `butil_reset_ring` leaves them. -/
def RingsReset (ctx : SmbCtx) : Prop :=
  butilResetRing ctx.clientRing = ctx.clientRing ∧ butilResetRing ctx.serverRing = ctx.serverRing

/-- A context with its worker: a client not yet connected has no server socket, one not yet
in the loop has fresh rings, and the loop has a server socket. -/
structure PairCtx (log : List SocketEvent) (ctx : SmbCtx) (pc : WorkerPc) : Prop where
  unpaired : ctx.clientSocket ≠ invalidSocket → connected pc = false →
    ∀ i server, .openServer i ctx.clientSocket server ∉ log
  ready : ctx.clientSocket ≠ invalidSocket → used pc = false → RingsReset ctx
  server : pc = .proxy → ctx.serverSocket ≠ invalidSocket

/-- The rings that the acceptor has already reset for the client it is about to set. -/
structure AcceptorReady (s : Handover) : Prop where
  client : ∀ client passthrough i, s.acceptor = .start .resetServerRing client passthrough i →
    butilResetRing (s.ctx i).clientRing = (s.ctx i).clientRing
  both : ∀ client passthrough i, s.acceptor = .start .setClient client passthrough i →
    RingsReset (s.ctx i)

/-- The pairs of client and server sockets. -/
structure PairInv (s : Handover) : Prop where
  ctx : ∀ i, PairCtx s.log (s.ctx i) (s.worker i)
  acceptor : AcceptorReady s
  installed : ∀ i client server, .openServer i client server ∈ s.log → .install i client ∈ s.log
  once : ∀ i j client server server', .openServer i client server ∈ s.log →
    .openServer j client server' ∈ s.log → server = server'

/-- At the beginning there are no pairs. -/
theorem pairs_init (maxConnections : ℕ) (size : ℤ) (clientData serverData : ℕ → ℤ → UInt8) :
    PairInv (Handover.init maxConnections size clientData serverData) where
  ctx i := by
    refine ⟨fun h => absurd rfl h, fun h => absurd rfl h, fun h => ?_⟩
    cases h
  acceptor := by
    refine ⟨fun client passthrough i h => ?_, fun client passthrough i h => ?_⟩
    · cases h
    · cases h
  installed i client server h := by cases h
  once i j client server server' h := by cases h

/-! ## What a step of a worker does -/

section Worker

variable {s s' : Handover} {i : ℕ}

/-- **A step of a worker keeps the pairs** if it keeps its own context. -/
theorem pairs_worker (h : Inv s) (hpairs : PairInv s) (hframe : StepFrame s s' i)
    (hi : PairCtx s'.log (s'.ctx i) (s'.worker i)) : PairInv s' := by
  obtain ⟨server, hopens⟩ := hframe.opens
  -- While the worker is in `tcp_connect` its client has no server socket yet.
  have hconnecting : s.worker i = .connecting → (s.ctx i).clientSocket = s.seen i ∧
      s.seen i ≠ invalidSocket ∧ ∀ j server', .openServer j (s.seen i) server' ∉ s.log := by
    intro hpc
    have hctx := h.ctx i
    have hpair := hpairs.ctx i
    rw [hpc] at hctx hpair
    obtain ⟨hclient, hvalid⟩ := hctx.inside rfl
    refine ⟨hclient, hvalid, ?_⟩
    rw [← hclient] at hvalid ⊢
    exact hpair.unpaired hvalid rfl
  refine ⟨fun j => ?_, ⟨fun client passthrough j hpc => ?_, fun client passthrough j hpc => ?_⟩,
    fun j client server' hmem => ?_, fun j k client server₁ server₂ hj hk => ?_⟩
  · by_cases hj : j = i
    · rw [hj]
      exact hi
    · obtain ⟨hctx, hworker⟩ := hframe.ctx j hj
      have hpair := hpairs.ctx j
      rw [hctx, hworker]
      refine ⟨fun hvalid hpc k server' hmem => ?_, hpair.ready, hpair.server⟩
      cases hopens k _ server' hmem with
      | inl hold => exact hpair.unpaired hvalid hpc k server' hold
      | inr hnew =>
          obtain ⟨hiconnecting, -, hclient, -⟩ := hnew
          obtain ⟨hseen, hseenValid, -⟩ := hconnecting hiconnecting
          have hheld := (h.ctx i).held (by rw [hseen]; exact hseenValid)
          rw [hseen, ← hclient] at hheld
          exact hj (installed_once h.logged ((h.ctx j).held hvalid) hheld)
  · rw [hframe.acceptor] at hpc
    have hready := hpairs.acceptor.client client passthrough j hpc
    by_cases hj : j = i
    · subst hj
      have hidle := clientSocket_of_found h hpc rfl
      rw [(hframe.rings fun hproxy => ?_).1]
      · exact hready
      · obtain ⟨hclient, hvalid⟩ := (h.ctx j).inside (by rw [hproxy]; rfl)
        exact hvalid (hclient ▸ hidle)
    · rw [(hframe.ctx j hj).1]
      exact hready
  · rw [hframe.acceptor] at hpc
    have hready := hpairs.acceptor.both client passthrough j hpc
    by_cases hj : j = i
    · subst hj
      have hidle := clientSocket_of_found h hpc rfl
      have hrings := hframe.rings fun hproxy => by
        obtain ⟨hclient, hvalid⟩ := (h.ctx j).inside (by rw [hproxy]; rfl)
        exact hvalid (hclient ▸ hidle)
      unfold RingsReset
      rw [hrings.1, hrings.2]
      exact hready
    · rw [(hframe.ctx j hj).1]
      exact hready
  · cases hopens j client server' hmem with
    | inl hold => exact hframe.log (hpairs.installed j client server' hold)
    | inr hnew =>
        obtain ⟨hpc, rfl, rfl, -⟩ := hnew
        obtain ⟨hclient, hvalid, -⟩ := hconnecting hpc
        rw [← hclient] at hvalid ⊢
        exact hframe.log ((h.ctx j).held hvalid)
  · cases hopens j client server₁ hj with
    | inl hjold =>
        cases hopens k client server₂ hk with
        | inl hkold => exact hpairs.once j k client server₁ server₂ hjold hkold
        | inr hknew =>
            obtain ⟨hpc, rfl, rfl, -⟩ := hknew
            exact absurd hjold ((hconnecting hpc).2.2 j server₁)
    | inr hjnew =>
        obtain ⟨hpc, rfl, rfl, rfl, -⟩ := hjnew
        cases hopens k _ server₂ hk with
        | inl hkold => exact absurd hkold ((hconnecting hpc).2.2 k server₂)
        | inr hknew => exact hknew.2.2.2.1.symm

/-- A move of a worker that neither takes a client up nor enters the loop. -/
def Onward (pc pc' : WorkerPc) : Prop :=
  pc' ≠ .proxy ∧ (connected pc' = false → connected pc = false) ∧ (used pc' = false → used pc = false)

instance (pc pc' : WorkerPc) : Decidable (Onward pc pc') := inferInstanceAs (Decidable (_ ∧ _))

/-- A worker that goes on with the same client keeps what is known of its pair. -/
theorem pairCtx_onward {log log' : List SocketEvent} {ctx ctx' : SmbCtx} {pc pc' : WorkerPc}
    (h : PairCtx log ctx pc) (hpc : Onward pc pc') (hclient : ctx'.clientSocket = ctx.clientSocket)
    (hrings : ctx'.clientRing = ctx.clientRing ∧ ctx'.serverRing = ctx.serverRing)
    (hlog : connected pc' = false → ∀ i client server,
      .openServer i client server ∈ log' → .openServer i client server ∈ log) :
    PairCtx log' ctx' pc' := by
  obtain ⟨hproxy, hconnected, hused⟩ := hpc
  refine ⟨fun hvalid hpc' i server hmem => ?_, fun hvalid hpc' => ?_,
    fun hpc' => absurd hpc' hproxy⟩
  · rw [hclient] at hvalid hmem
    exact h.unpaired hvalid (hconnected hpc') i server (hlog hpc' i _ server hmem)
  · unfold RingsReset
    rw [hclient] at hvalid
    rw [hrings.1, hrings.2]
    exact h.ready hvalid (hused hpc')

/-- A context without a client. -/
theorem pairCtx_none {log : List SocketEvent} {ctx : SmbCtx} {pc : WorkerPc}
    (h : ctx.clientSocket = invalidSocket) (hpc : pc ≠ .proxy) : PairCtx log ctx pc :=
  ⟨fun hvalid => absurd h hvalid, fun hvalid => absurd h hvalid, fun hproxy => absurd hproxy hpc⟩

/-- A worker that keeps client and rings goes on. -/
theorem pairs_onward (h : Inv s) (hpairs : PairInv s) (hframe : StepFrame s s' i) (pc' : WorkerPc)
    (hpc' : s'.worker i = pc') (honward : Onward (s.worker i) pc')
    (hclient : (s'.ctx i).clientSocket = (s.ctx i).clientSocket)
    (hpc : s.worker i ≠ .proxy ∨ s'.ctx i = s.ctx i)
    (hlog : connected pc' = true ∨ ∀ j client server,
      .openServer j client server ∈ s'.log → .openServer j client server ∈ s.log) : PairInv s' := by
  have hrings : (s'.ctx i).clientRing = (s.ctx i).clientRing ∧
      (s'.ctx i).serverRing = (s.ctx i).serverRing := by
    cases hpc with
    | inl hne => exact hframe.rings hne
    | inr hsame =>
        rw [hsame]
        exact ⟨rfl, rfl⟩
  apply pairs_worker h hpairs hframe
  rw [hpc']
  refine pairCtx_onward (hpairs.ctx i) honward hclient hrings fun hconnected => ?_
  cases hlog with
  | inl htrue =>
      rw [htrue] at hconnected
      cases hconnected
  | inr hold => exact hold

/-- A worker whose client is gone. -/
theorem pairs_none (h : Inv s) (hpairs : PairInv s) (hframe : StepFrame s s' i)
    (hclient : (s'.ctx i).clientSocket = invalidSocket) (hpc : s'.worker i ≠ .proxy) :
    PairInv s' :=
  pairs_worker h hpairs hframe (pairCtx_none hclient hpc)

/-- A worker only goes on. -/
theorem pairs_at (h : Inv s) (hpairs : PairInv s) {pc pc' : WorkerPc} (hpc : s.worker i = pc)
    (honward : Onward pc pc') : PairInv (s.workerAt i pc') := by
  rw [← hpc] at honward
  exact pairs_onward h hpairs (stepFrame_at s i pc') pc' (Function.update_self _ _ _) honward rfl
    (Or.inr rfl) (Or.inr fun _ _ _ hmem => hmem)

/-- A worker closes a socket. -/
theorem pairs_close (h : Inv s) (hpairs : PairInv s) {pc pc' : WorkerPc} (hpc : s.worker i = pc)
    (honward : Onward pc pc') {e : SocketEvent} (hactor : actor e = .worker i)
    (he : ∀ j client server, e ≠ .openServer j client server) :
    PairInv ({ s with log := e :: s.log }.workerAt i pc') := by
  rw [← hpc] at honward
  refine pairs_onward h hpairs (stepFrame_close s i pc' hactor he) pc' (Function.update_self _ _ _) honward rfl
    (Or.inr rfl) (Or.inr fun j client server hmem => ?_)
  cases hmem with
  | head => exact absurd rfl (he j client server)
  | tail _ hmem => exact hmem

/-- A worker forgets its server socket. -/
theorem pairs_clearServer (h : Inv s) (hpairs : PairInv s) {pc pc' : WorkerPc}
    (hpc : s.worker i = pc) (hne : pc ≠ .proxy) (honward : Onward pc pc')
    (hframe : StepFrame s
      ((s.update i fun ctx => { ctx with serverSocket := invalidSocket }).workerAt i pc') i) :
    PairInv ((s.update i fun ctx => { ctx with serverSocket := invalidSocket }).workerAt i pc') := by
  rw [← hpc] at honward hne
  have hself : ((s.update i fun ctx => { ctx with serverSocket := invalidSocket }).workerAt i pc').ctx i
      = { s.ctx i with serverSocket := invalidSocket } := Function.update_self _ _ _
  refine pairs_onward h hpairs hframe pc' (Function.update_self _ _ _) honward ?_ (Or.inl hne)
    (Or.inr fun _ _ _ hmem => hmem)
  rw [hself]

/-- A worker takes its client out of the context. -/
theorem pairs_clearClient (h : Inv s) (hpairs : PairInv s) {pc' : WorkerPc} (hne : pc' ≠ .proxy)
    (hframe : StepFrame s
      ((s.update i fun ctx => { ctx with clientSocket := invalidSocket }).workerAt i pc') i) :
    PairInv ((s.update i fun ctx => { ctx with clientSocket := invalidSocket }).workerAt i pc') := by
  have hself : ((s.update i fun ctx => { ctx with clientSocket := invalidSocket }).workerAt i pc').ctx i
      = { s.ctx i with clientSocket := invalidSocket } := Function.update_self _ _ _
  have hpc' : ((s.update i fun ctx => { ctx with clientSocket := invalidSocket }).workerAt i
      pc').worker i = pc' := Function.update_self _ _ _
  apply pairs_none h hpairs hframe
  · rw [hself]
  · rw [hpc']
    exact hne

/-- The end of `tcp_connect` is where pairs are made. -/
theorem pairs_connectStep (h : Inv s) (hpairs : PairInv s) (hpc : s.worker i = .connecting)
    (event : ConnectEvent) : PairInv (s.connectStep i event) := by
  have hframe := connectStep_frame hpc event
  have hne : s.worker i ≠ .proxy := by
    rw [hpc]
    decide
  unfold Handover.connectStep at hframe ⊢
  cases event with
  | noSocket => exact pairs_at h hpairs hpc (by decide)
  | refused server =>
      dsimp only at hframe ⊢
      by_cases hfresh : s.Fresh server
      · rw [if_pos hfresh] at hframe ⊢
        refine pairs_onward h hpairs hframe .closeEarly (Function.update_self _ _ _) ?_ rfl
          (Or.inr rfl) (Or.inl rfl)
        rw [hpc]
        decide
      · rw [if_neg hfresh]
        exact hpairs
  | connected server =>
      dsimp only at hframe ⊢
      by_cases hfresh : s.Fresh server
      · rw [if_pos hfresh] at hframe ⊢
        have hself : (s.update i fun ctx => { ctx with serverSocket := server }).ctx i =
            { s.ctx i with serverSocket := server } := Function.update_self _ _ _
        refine pairs_onward h hpairs hframe .testServer (Function.update_self _ _ _) ?_ ?_
          (Or.inl hne) (Or.inl rfl)
        · rw [hpc]
          decide
        · show ((s.update i fun ctx => { ctx with serverSocket := server }).ctx i).clientSocket = _
          rw [hself]
      · rw [if_neg hfresh]
        exact hpairs

/-- **Every step of a worker keeps the pairs.** -/
theorem pairs_workerStep (h : Inv s) (hpairs : PairInv s) (event : WorkerEvent) :
    PairInv (s.workerStep i event) := by
  have hframe := workerStep_frame s i event
  unfold Handover.workerStep at hframe ⊢
  cases hpc : s.worker i with
  | absent => exact hpairs
  | wait =>
      simp only [hpc] at hframe ⊢
      by_cases hclient : (s.ctx i).clientSocket = invalidSocket
      · rw [if_pos hclient]
        exact hpairs
      · rw [if_neg hclient] at hframe ⊢
        refine pairs_onward h hpairs hframe .testSeen (Function.update_self _ _ _) ?_ rfl
          (Or.inr rfl) (Or.inr fun _ _ _ hmem => hmem)
        rw [hpc]
        decide
  | testSeen =>
      dsimp only
      split_ifs
      · exact pairs_at h hpairs hpc (by decide)
      · exact pairs_at h hpairs hpc (by decide)
  | connect =>
      simp only [hpc] at hframe
      exact pairs_clearServer h hpairs hpc (by decide) (by decide) hframe
  | connecting =>
      cases event with
      | connect event => exact pairs_connectStep h hpairs hpc event
      | run => exact hpairs
      | traffic clientRing serverRing => exact hpairs
      | ending => exact hpairs
  | testServer =>
      dsimp only
      by_cases hserver : (s.ctx i).serverSocket = invalidSocket
      · rw [if_pos hserver]
        exact pairs_at h hpairs hpc (by decide)
      · rw [if_neg hserver]
        have hpc' : (s.workerAt i .proxy).worker i = .proxy := Function.update_self _ _ _
        apply pairs_worker h hpairs (stepFrame_at s i .proxy)
        rw [hpc']
        exact ⟨fun _ hfalse => (nomatch hfalse), fun _ hfalse => (nomatch hfalse), fun _ => hserver⟩
  | closeEarly => exact pairs_close h hpairs hpc (by decide) rfl fun _ _ _ he => by cases he
  | clearEarly =>
      simp only [hpc] at hframe
      exact pairs_clearClient h hpairs (by decide) hframe
  | proxy =>
      cases event with
      | traffic clientRing serverRing =>
          simp only [hpc] at hframe
          have hself : (s.update i fun ctx =>
              { ctx with clientRing := clientRing, serverRing := serverRing }).ctx i =
              { s.ctx i with clientRing := clientRing, serverRing := serverRing } :=
            Function.update_self _ _ _
          have hworker : (s.update i fun ctx =>
              { ctx with clientRing := clientRing, serverRing := serverRing }).worker i = .proxy := hpc
          apply pairs_worker h hpairs hframe
          rw [hself, hworker]
          exact ⟨fun _ hfalse => (nomatch hfalse), fun _ hfalse => (nomatch hfalse),
            fun _ => (hpairs.ctx i).server hpc⟩
      | ending => exact pairs_at h hpairs hpc (by decide)
      | run => exact hpairs
      | connect event => exact hpairs
  | testClient =>
      dsimp only
      by_cases hclient : (s.ctx i).clientSocket ≠ invalidSocket
      · rw [if_pos hclient]
        exact pairs_at h hpairs hpc (by decide)
      · rw [if_neg hclient]
        have hpc' : (s.workerAt i .testServerEnd).worker i = .testServerEnd :=
          Function.update_self _ _ _
        apply pairs_none h hpairs (stepFrame_at s i .testServerEnd) (not_not.mp hclient)
        rw [hpc']
        decide
  | closeClient => exact pairs_close h hpairs hpc (by decide) rfl fun _ _ _ he => by cases he
  | clearClient =>
      simp only [hpc] at hframe
      exact pairs_clearClient h hpairs (by decide) hframe
  | testServerEnd =>
      dsimp only
      split_ifs
      · exact pairs_at h hpairs hpc (by decide)
      · exact pairs_at h hpairs hpc (by decide)
  | closeServer => exact pairs_close h hpairs hpc (by decide) rfl fun _ _ _ he => by cases he
  | clearServer =>
      simp only [hpc] at hframe
      exact pairs_clearServer h hpairs hpc (by decide) (by decide) hframe

end Worker

/-! ## What a step of the acceptor does -/

section Acceptor

variable {s s' : Handover} {client : ℤ} {passthrough : Bool} {i : ℕ}

/-- **A step of the acceptor keeps the pairs** if it keeps the context it is at. -/
theorem pairs_acceptor (hpairs : PairInv s)
    (hctx : ∀ j, j ≠ i → s'.ctx j = s.ctx j ∧ s'.worker j = s.worker j)
    (hlog : ∀ e ∈ s.log, e ∈ s'.log)
    (hopens : ∀ j client server,
      .openServer j client server ∈ s'.log → .openServer j client server ∈ s.log)
    (hi : PairCtx s'.log (s'.ctx i) (s'.worker i)) (hready : AcceptorReady s') : PairInv s' where
  ctx j := by
    by_cases hj : j = i
    · rw [hj]
      exact hi
    · obtain ⟨hctxj, hworker⟩ := hctx j hj
      have hpair := hpairs.ctx j
      rw [hctxj, hworker]
      exact ⟨fun hvalid hpc k server hmem => hpair.unpaired hvalid hpc k server (hopens k _ server hmem),
        hpair.ready, hpair.server⟩
  acceptor := hready
  installed j client server hmem := hlog _ (hpairs.installed j client server (hopens j client server hmem))
  once j k client server server' hj hk :=
    hpairs.once j k client server server' (hopens j client server hj) (hopens k client server' hk)

/-- The acceptor is at an instruction that no ring has to be reset for. -/
theorem acceptorReady_of (hreset : ∀ client passthrough i,
      s.acceptor ≠ .start .resetServerRing client passthrough i)
    (hset : ∀ client passthrough i, s.acceptor ≠ .start .setClient client passthrough i) :
    AcceptorReady s :=
  ⟨fun client passthrough i hpc => absurd hpc (hreset client passthrough i),
    fun client passthrough i hpc => absurd hpc (hset client passthrough i)⟩

/-- The acceptor goes on. -/
theorem pairs_goto (hpairs : PairInv s) {acceptor : AcceptorPc}
    (hready : AcceptorReady (s.goto acceptor)) : PairInv (s.goto acceptor) :=
  pairs_acceptor (i := 0) hpairs (fun _ _ => ⟨rfl, rfl⟩) (fun _ hmem => hmem)
    (fun _ _ _ hmem => hmem) (hpairs.ctx 0) hready

/-- The worker of a context in which the acceptor has found no client is not in the loop. -/
theorem not_proxy_of_found (h : Inv s) {pc : StartPc}
    (hpc : s.acceptor = .start pc client passthrough i) (hfound : found pc = true) :
    s.worker i ≠ .proxy := by
  intro hproxy
  obtain ⟨hclient, hvalid⟩ := (h.ctx i).inside (by rw [hproxy]; rfl)
  exact hvalid (hclient ▸ clientSocket_of_found h hpc hfound)

/-- A client that arrives has no partner yet. -/
theorem pairs_arrive (hpairs : PairInv s) : PairInv (s.arrive client passthrough) := by
  unfold Handover.arrive
  split_ifs
  · exact ⟨hpairs.ctx, acceptorReady_of (fun _ _ _ hpc => nomatch hpc)
      (fun _ _ _ hpc => nomatch hpc), hpairs.installed, hpairs.once⟩
  · exact hpairs

/-- `pthread_create` makes no pair. -/
theorem pairs_createThread (h : Inv s) (hpairs : PairInv s)
    (hpc : s.acceptor = .start .createThread client passthrough i) (create : ThreadCreate) :
    PairInv (s.startStep create client passthrough i .createThread) := by
  have hidle := clientSocket_of_found h hpc rfl
  have hproxy := not_proxy_of_found h hpc rfl
  have hself : (s.update i fun ctx => { ctx with thread := create.thread }).ctx i =
      { s.ctx i with thread := create.thread } := Function.update_self _ _ _
  unfold Handover.startStep
  dsimp only
  split_ifs
  · refine pairs_acceptor (i := i) hpairs (fun j hj => ⟨Function.update_of_ne hj _ _, rfl⟩)
      (fun _ hmem => hmem) (fun _ _ _ hmem => hmem) (pairCtx_none ?_ hproxy)
      (acceptorReady_of (fun _ _ _ he => nomatch he) (fun _ _ _ he => nomatch he))
    show ((s.update i fun ctx => { ctx with thread := create.thread }).ctx i).clientSocket = _
    rw [hself]
    exact hidle
  · refine pairs_acceptor (i := i) hpairs
      (fun j hj => ⟨Function.update_of_ne hj _ _, Function.update_of_ne hj _ _⟩)
      (fun _ hmem => hmem) (fun _ _ _ hmem => hmem) (pairCtx_none ?_ ?_)
      (acceptorReady_of (fun _ _ _ he => nomatch he) (fun _ _ _ he => nomatch he))
    · show ((s.update i fun ctx => { ctx with thread := create.thread }).ctx i).clientSocket = _
      rw [hself]
      exact hidle
    · show Function.update s.worker i .wait i ≠ .proxy
      rw [Function.update_self]
      decide

/-- The first ring of a context without a client is reset. -/
theorem pairs_resetClientRing (h : Inv s) (hpairs : PairInv s)
    (hpc : s.acceptor = .start .resetClientRing client passthrough i) (create : ThreadCreate) :
    PairInv (s.startStep create client passthrough i .resetClientRing) := by
  have hproxy := not_proxy_of_found h hpc rfl
  have hself : (s.startStep create client passthrough i .resetClientRing).ctx i =
      { s.ctx i with clientRing := butilResetRing (s.ctx i).clientRing } := Function.update_self _ _ _
  refine pairs_acceptor (i := i) hpairs (fun j hj => ⟨Function.update_of_ne hj _ _, rfl⟩)
    (fun _ hmem => hmem) (fun _ _ _ hmem => hmem)
    (pairCtx_none ?_ hproxy) ⟨fun _ _ j he => ?_, fun _ _ _ he => nomatch he⟩
  · rw [hself]
    exact clientSocket_of_found h hpc rfl
  · cases he
    rw [hself]
    rfl

/-- The second ring of it is reset. -/
theorem pairs_resetServerRing (h : Inv s) (hpairs : PairInv s)
    (hpc : s.acceptor = .start .resetServerRing client passthrough i) (create : ThreadCreate) :
    PairInv (s.startStep create client passthrough i .resetServerRing) := by
  have hproxy := not_proxy_of_found h hpc rfl
  have hself : (s.startStep create client passthrough i .resetServerRing).ctx i =
      { s.ctx i with serverRing := butilResetRing (s.ctx i).serverRing } := Function.update_self _ _ _
  refine pairs_acceptor (i := i) hpairs (fun j hj => ⟨Function.update_of_ne hj _ _, rfl⟩)
    (fun _ hmem => hmem) (fun _ _ _ hmem => hmem)
    (pairCtx_none ?_ hproxy) ⟨fun _ _ _ he => (nomatch he), fun _ _ j he => ?_⟩
  · rw [hself]
    exact clientSocket_of_found h hpc rfl
  · cases he
    rw [hself]
    exact ⟨hpairs.acceptor.client client passthrough i hpc, rfl⟩

/-- No event is about the client that is set, so no server socket has been opened for it. -/
theorem pairs_setClient (h : Inv s) (hpairs : PairInv s)
    (hpc : s.acceptor = .start .setClient client passthrough i) (create : ThreadCreate) :
    PairInv (s.startStep create client passthrough i .setClient) := by
  have hcarries : carries s.acceptor client := by
    rw [hpc]
    exact ⟨rfl, rfl⟩
  obtain ⟨-, -, hnew⟩ := h.acceptor.carried client hcarries
  have hproxy := not_proxy_of_found h hpc rfl
  have hself : (s.startStep create client passthrough i .setClient).ctx i =
      { s.ctx i with clientSocket := client } := Function.update_self _ _ _
  have hopens : ∀ j client' server,
      .openServer j client' server ∈ (s.startStep create client passthrough i .setClient).log →
        .openServer j client' server ∈ s.log := by
    intro j client' server hmem
    cases hmem with
    | tail _ hmem => exact hmem
  refine pairs_acceptor (i := i) hpairs (fun j hj => ⟨Function.update_of_ne hj _ _, rfl⟩)
    (fun _ => List.mem_cons_of_mem _) hopens ?_
    (acceptorReady_of (fun _ _ _ he => nomatch he) (fun _ _ _ he => nomatch he))
  rw [hself]
  refine ⟨fun _ _ j server hmem => ?_, fun _ _ => hpairs.acceptor.both client passthrough i hpc,
    fun hin => absurd hin hproxy⟩
  exact hnew _ (hpairs.installed j client server (hopens j client server hmem)) rfl

/-- **Every step of the acceptor keeps the pairs.** -/
theorem pairs_startStep (h : Inv s) (hpairs : PairInv s) {pc : StartPc}
    (hpc : s.acceptor = .start pc client passthrough i) (create : ThreadCreate) :
    PairInv (s.startStep create client passthrough i pc) := by
  have hgo : ∀ pc' k, pc' ≠ .resetServerRing → pc' ≠ .setClient →
      PairInv (s.goto (.start pc' client passthrough k)) := by
    intro pc' k hreset hset
    refine pairs_goto hpairs (acceptorReady_of (fun _ _ _ he => ?_) (fun _ _ _ he => ?_))
    · cases he
      exact hreset rfl
    · cases he
      exact hset rfl
  cases pc with
  | testClient =>
      unfold Handover.startStep
      dsimp only
      split_ifs
      · exact hgo .testThread i (by decide) (by decide)
      · exact hgo .testClient (i + 1) (by decide) (by decide)
      · exact hgo .closeClient i (by decide) (by decide)
  | testThread =>
      unfold Handover.startStep
      dsimp only
      split_ifs
      · exact hgo .createThread i (by decide) (by decide)
      · exact hgo .resetClientRing i (by decide) (by decide)
  | createThread => exact pairs_createThread h hpairs hpc create
  | resetClientRing => exact pairs_resetClientRing h hpairs hpc create
  | resetServerRing => exact pairs_resetServerRing h hpairs hpc create
  | setClient => exact pairs_setClient h hpairs hpc create
  | setPassthrough =>
      have hself : (s.startStep create client passthrough i .setPassthrough).ctx i =
          { s.ctx i with passthrough := passthrough } := Function.update_self _ _ _
      refine pairs_acceptor (i := i) hpairs (fun j hj => ⟨Function.update_of_ne hj _ _, rfl⟩)
        (fun _ hmem => hmem) (fun _ _ _ hmem => hmem) ?_
        (acceptorReady_of (fun _ _ _ he => nomatch he) (fun _ _ _ he => nomatch he))
      rw [hself]
      exact ⟨(hpairs.ctx i).unpaired, (hpairs.ctx i).ready, (hpairs.ctx i).server⟩
  | closeClient =>
      refine pairs_acceptor (i := i) hpairs (fun _ _ => ⟨rfl, rfl⟩)
        (fun _ => List.mem_cons_of_mem _) (fun _ _ _ hmem => ?_) ?_
        (acceptorReady_of (fun _ _ _ he => nomatch he) (fun _ _ _ he => nomatch he))
      · cases hmem with
        | tail _ hmem => exact hmem
      · refine ⟨fun hvalid hpc' j server hmem => ?_, (hpairs.ctx i).ready, (hpairs.ctx i).server⟩
        cases hmem with
        | tail _ hmem => exact (hpairs.ctx i).unpaired hvalid hpc' j server hmem

end Acceptor

/-- **Whatever happens next keeps the pairs.** -/
theorem pairs_handoverStep {s : Handover} (h : Inv s) (hpairs : PairInv s) (input : HandoverInput) :
    PairInv (handoverStep s input) := by
  cases input with
  | arrive client passthrough => exact pairs_arrive hpairs
  | acceptor create =>
      unfold handoverStep
      cases hpc : s.acceptor with
      | idle => exact hpairs
      | start pc client passthrough i => exact pairs_startStep h hpairs hpc create
  | worker i event => exact pairs_workerStep h hpairs event

end SmbProxy.Analysis
