import SmbProxy.Analysis.Handover

/-!
# What a step leaves alone

A step of a worker stays in its own context, opens at most one server socket, and moves
along the edges of `successors`, the control flow of `smbgw_thread`. A context with a client
is left alone by all threads but its worker (`others_keep`).
-/

set_option autoImplicit false

namespace SmbProxy.Analysis

open SmbProxy.Library SmbProxy.Model SmbProxy.Interface

/-- A server socket is opened once. -/
theorem opened_once {log : List SocketEvent} (h : WellLogged log) {i j : ℕ}
    {client client' server : ℤ} (hi : .openServer i client server ∈ log)
    (hj : .openServer j client' server ∈ log) : i = j ∧ client = client' := by
  induction h with
  | nil => cases hi
  | @cons e log hallowed _ ih =>
      cases hi with
      | head =>
          cases hj with
          | head => exact ⟨rfl, rfl⟩
          | tail _ hj =>
              cases hallowed with
              | openServer _ _ hnew => exact absurd rfl (hnew _ hj)
      | tail _ hi =>
          cases hj with
          | head =>
              cases hallowed with
              | openServer _ _ hnew => exact absurd rfl (hnew _ hi)
          | tail _ hj => exact ih hi hj

/-! ## A step of a worker -/

section Worker

variable {s s' : Handover} {i : ℕ}

/-- A worker opens a server socket only in `tcp_connect`, one, for the client it has seen. -/
def Opens (s : Handover) (i : ℕ) (log : List SocketEvent) : Prop :=
  ∃ server, ∀ j client server', .openServer j client server' ∈ log →
    .openServer j client server' ∈ s.log ∨
      s.worker i = .connecting ∧ j = i ∧ client = s.seen i ∧ server' = server ∧ s.Fresh server'

/-- A step without an event opens no server socket. -/
theorem opens_of_eq {log : List SocketEvent} (h : log = s.log) : Opens s i log :=
  ⟨0, fun _ _ _ hmem => Or.inl (h ▸ hmem)⟩

/-- An event of another kind opens no server socket. -/
theorem opens_cons {e : SocketEvent} (he : ∀ j client server, e ≠ .openServer j client server) :
    Opens s i (e :: s.log) := by
  refine ⟨0, fun j client server hmem => Or.inl ?_⟩
  cases hmem with
  | head => exact absurd rfl (he j client server)
  | tail _ hmem => exact hmem

/-- A worker in `tcp_connect` opens a fresh server socket for the client it has seen. -/
theorem opens_openServer (hpc : s.worker i = .connecting) {server : ℤ} (hfresh : s.Fresh server) :
    Opens s i (.openServer i (s.seen i) server :: s.log) := by
  refine ⟨server, fun j client server' hmem => ?_⟩
  cases hmem with
  | head => exact Or.inr ⟨hpc, rfl, rfl, rfl, hfresh⟩
  | tail _ hmem => exact Or.inl hmem

/-- The thread that does it. -/
def actor : SocketEvent → Actor
  | .install _ _ => .acceptor
  | .close actor _ => actor
  | .openServer i _ _ => .worker i
  | .closeServer i _ _ => .worker i

/-- What a step of a worker leaves alone. -/
structure StepFrame (s s' : Handover) (i : ℕ) : Prop where
  acceptor : s'.acceptor = s.acceptor
  cnt : s'.cnt = s.cnt
  sockets : s'.sockets = s.sockets ∨ ∃ socket, s.Fresh socket ∧ s'.sockets = socket :: s.sockets
  ctx : ∀ j, j ≠ i → s'.ctx j = s.ctx j ∧ s'.worker j = s.worker j
  rings : s.worker i ≠ .proxy → (s'.ctx i).clientRing = (s.ctx i).clientRing ∧
    (s'.ctx i).serverRing = (s.ctx i).serverRing
  events : ∃ new, s'.log = new ++ s.log ∧ ∀ e ∈ new, actor e = .worker i
  opens : Opens s i s'.log

/-- What is in the log stays there. -/
theorem StepFrame.log (h : StepFrame s s' i) {e : SocketEvent} (he : e ∈ s.log) : e ∈ s'.log := by
  obtain ⟨new, hlog, -⟩ := h.events
  rw [hlog]
  exact List.mem_append_right new he

/-- What a step of a worker may do, part by part. -/
theorem stepFrame_of (hacceptor : s'.acceptor = s.acceptor) (hcnt : s'.cnt = s.cnt)
    (hsockets : s'.sockets = s.sockets ∨ ∃ socket, s.Fresh socket ∧ s'.sockets = socket :: s.sockets)
    (hctx : s'.ctx = s.ctx ∨ ∃ ctx, s'.ctx = Function.update s.ctx i ctx ∧
      (s.worker i ≠ .proxy →
        ctx.clientRing = (s.ctx i).clientRing ∧ ctx.serverRing = (s.ctx i).serverRing))
    (hworker : s'.worker = s.worker ∨ ∃ pc, s'.worker = Function.update s.worker i pc)
    (hevents : ∃ new, s'.log = new ++ s.log ∧ ∀ e ∈ new, actor e = .worker i)
    (hopens : Opens s i s'.log) : StepFrame s s' i := by
  refine ⟨hacceptor, hcnt, hsockets, fun j hj => ⟨?_, ?_⟩, fun hpc => ?_, hevents, hopens⟩
  · rcases hctx with hsame | ⟨ctx, hctx, -⟩
    · rw [hsame]
    · rw [hctx, Function.update_of_ne hj]
  · rcases hworker with hsame | ⟨pc, hworker⟩
    · rw [hsame]
    · rw [hworker, Function.update_of_ne hj]
  · rcases hctx with hsame | ⟨ctx, hctx, hrings⟩
    · rw [hsame]
      exact ⟨rfl, rfl⟩
    · rw [hctx, Function.update_self]
      exact hrings hpc

/-- The worker goes on, with a new context or without, and the log as it was. -/
theorem stepFrame_of_log (hacceptor : s'.acceptor = s.acceptor) (hcnt : s'.cnt = s.cnt)
    (hsockets : s'.sockets = s.sockets)
    (hctx : s'.ctx = s.ctx ∨ ∃ ctx, s'.ctx = Function.update s.ctx i ctx ∧
      (s.worker i ≠ .proxy →
        ctx.clientRing = (s.ctx i).clientRing ∧ ctx.serverRing = (s.ctx i).serverRing))
    (hworker : s'.worker = s.worker ∨ ∃ pc, s'.worker = Function.update s.worker i pc)
    (hlog : s'.log = s.log) : StepFrame s s' i :=
  stepFrame_of hacceptor hcnt (Or.inl hsockets) hctx hworker ⟨[], hlog, by simp⟩ (opens_of_eq hlog)

/-- A worker that waits does nothing. -/
theorem stepFrame_self (s : Handover) (i : ℕ) : StepFrame s s i :=
  stepFrame_of_log rfl rfl rfl (Or.inl rfl) (Or.inl rfl) rfl

/-- A worker that only goes on. -/
theorem stepFrame_at (s : Handover) (i : ℕ) (pc : WorkerPc) : StepFrame s (s.workerAt i pc) i :=
  stepFrame_of_log rfl rfl rfl (Or.inl rfl) (Or.inr ⟨pc, rfl⟩) rfl

/-- The worker closes a socket. -/
theorem stepFrame_close (s : Handover) (i : ℕ) (pc : WorkerPc) {e : SocketEvent}
    (hactor : actor e = .worker i) (he : ∀ j client server, e ≠ .openServer j client server) :
    StepFrame s ({ s with log := e :: s.log }.workerAt i pc) i :=
  stepFrame_of rfl rfl (Or.inl rfl) (Or.inl rfl) (Or.inr ⟨pc, rfl⟩) ⟨[e], rfl, by simpa using hactor⟩ (opens_cons he)

/-- The end of `tcp_connect`. -/
theorem connectStep_frame (hpc : s.worker i = .connecting) (event : ConnectEvent) :
    StepFrame s (s.connectStep i event) i := by
  unfold Handover.connectStep
  cases event with
  | noSocket => exact stepFrame_at s i .closeEarly
  | refused server =>
      dsimp only
      split_ifs with hfresh
      · obtain ⟨server', hopens⟩ := opens_openServer hpc hfresh
        refine stepFrame_of rfl rfl (Or.inr ⟨server, hfresh, rfl⟩) (Or.inl rfl)
          (Or.inr ⟨.closeEarly, rfl⟩)
          ⟨[.closeServer i (s.seen i) server, .openServer i (s.seen i) server], rfl, by simp [actor]⟩
          ⟨server', ?_⟩
        intro j client server₁ hmem
        cases hmem with
        | tail _ hmem => exact hopens j client server₁ hmem
      · exact stepFrame_self s i
  | connected server =>
      dsimp only
      split_ifs with hfresh
      · exact stepFrame_of rfl rfl (Or.inr ⟨server, hfresh, rfl⟩)
          (Or.inr ⟨_, rfl, fun _ => ⟨rfl, rfl⟩⟩) (Or.inr ⟨.testServer, rfl⟩)
          ⟨[.openServer i (s.seen i) server], rfl, by simp [actor]⟩ (opens_openServer hpc hfresh)
      · exact stepFrame_self s i

/-- **A step of a worker touches its own context only**, and the rings not outside the proxy loop.
-/
theorem workerStep_frame (s : Handover) (i : ℕ) (event : WorkerEvent) :
    StepFrame s (s.workerStep i event) i := by
  have hserver : ∀ pc, StepFrame s
      ((s.update i fun ctx => { ctx with serverSocket := invalidSocket }).workerAt i pc) i :=
    fun pc => stepFrame_of_log rfl rfl rfl (Or.inr ⟨_, rfl, fun _ => ⟨rfl, rfl⟩⟩) (Or.inr ⟨pc, rfl⟩) rfl
  have hclient : ∀ pc, StepFrame s
      ((s.update i fun ctx => { ctx with clientSocket := invalidSocket }).workerAt i pc) i :=
    fun pc => stepFrame_of_log rfl rfl rfl (Or.inr ⟨_, rfl, fun _ => ⟨rfl, rfl⟩⟩) (Or.inr ⟨pc, rfl⟩) rfl
  unfold Handover.workerStep
  cases hpc : s.worker i with
  | absent => exact stepFrame_self s i
  | wait =>
      dsimp only
      split_ifs
      · exact stepFrame_self s i
      · exact stepFrame_of_log rfl rfl rfl (Or.inl rfl) (Or.inr ⟨.testSeen, rfl⟩) rfl
  | testSeen =>
      dsimp only
      split_ifs
      · exact stepFrame_at s i .connect
      · exact stepFrame_at s i .wait
  | connect => exact hserver .connecting
  | connecting =>
      cases event with
      | connect event => exact connectStep_frame hpc event
      | run => exact stepFrame_self s i
      | traffic clientRing serverRing => exact stepFrame_self s i
      | ending => exact stepFrame_self s i
  | testServer =>
      dsimp only
      split_ifs
      · exact stepFrame_at s i .closeEarly
      · exact stepFrame_at s i .proxy
  | closeEarly => exact stepFrame_close s i .clearEarly rfl fun _ _ _ h => by cases h
  | clearEarly => exact hclient .wait
  | proxy =>
      cases event with
      | traffic clientRing serverRing =>
          exact stepFrame_of_log rfl rfl rfl (Or.inr ⟨_, rfl, fun hne => absurd hpc hne⟩) (Or.inl rfl) rfl
      | ending => exact stepFrame_at s i .testClient
      | run => exact stepFrame_self s i
      | connect event => exact stepFrame_self s i
  | testClient =>
      dsimp only
      split_ifs
      · exact stepFrame_at s i .closeClient
      · exact stepFrame_at s i .testServerEnd
  | closeClient => exact stepFrame_close s i .clearClient rfl fun _ _ _ h => by cases h
  | clearClient => exact hclient .testServerEnd
  | testServerEnd =>
      dsimp only
      split_ifs
      · exact stepFrame_at s i .closeServer
      · exact stepFrame_at s i .wait
  | closeServer => exact stepFrame_close s i .clearServer rfl fun _ _ _ h => by cases h
  | clearServer => exact hserver .wait

/-! ## The control flow of a worker -/

/-- Where a worker can be after a step. -/
def successors : WorkerPc → List WorkerPc
  | .absent => [.absent]
  | .wait => [.wait, .testSeen]
  | .testSeen => [.connect, .wait]
  | .connect => [.connecting]
  | .connecting => [.connecting, .closeEarly, .testServer]
  | .testServer => [.closeEarly, .proxy]
  | .closeEarly => [.clearEarly]
  | .clearEarly => [.wait]
  | .proxy => [.proxy, .testClient]
  | .testClient => [.closeClient, .testServerEnd]
  | .closeClient => [.clearClient]
  | .clearClient => [.testServerEnd]
  | .testServerEnd => [.closeServer, .wait]
  | .closeServer => [.clearServer]
  | .clearServer => [.wait]

/-- A worker comes to the proxy loop from the test of its server socket. -/
theorem testServer_of_successors {pc : WorkerPc} (h : .proxy ∈ successors pc) (hne : pc ≠ .proxy) :
    pc = .testServer := by
  cases pc <;> first | rfl | exact absurd rfl hne | simp [successors] at h

/-- A worker comes to the test of its server socket from `tcp_connect`. -/
theorem connecting_of_successors {pc : WorkerPc} (h : .testServer ∈ successors pc) :
    pc = .connecting := by
  cases pc <;> first | rfl | simp [successors] at h

/-- The worker is where it has been put. -/
@[simp] theorem workerAt_worker (s : Handover) (i : ℕ) (pc : WorkerPc) :
    (s.workerAt i pc).worker i = pc := Function.update_self _ _ _

/-- From `tcp_connect` a worker comes to where the code goes on. -/
theorem connectStep_moves (hpc : s.worker i = .connecting) (event : ConnectEvent) :
    (s.connectStep i event).worker i ∈ successors .connecting := by
  unfold Handover.connectStep
  cases event with
  | noSocket => simp [successors]
  | refused server =>
      dsimp only
      split_ifs <;> simp [successors, hpc]
  | connected server =>
      dsimp only
      split_ifs <;> simp [successors, hpc]

/-- **A worker moves along the control flow.** -/
theorem workerStep_moves (s : Handover) (i : ℕ) (event : WorkerEvent) :
    (s.workerStep i event).worker i ∈ successors (s.worker i) := by
  have hself : ∀ pc, s.worker i = pc → pc ∈ successors pc → s.worker i ∈ successors pc :=
    fun pc hpc hmem => hpc ▸ hmem
  unfold Handover.workerStep
  cases hpc : s.worker i with
  | absent => exact hself .absent hpc (by decide)
  | wait =>
      dsimp only
      split_ifs
      · exact hself .wait hpc (by decide)
      · simp [successors]
  | testSeen =>
      dsimp only
      split_ifs <;> simp [successors]
  | connect => simp [successors]
  | connecting =>
      cases event with
      | connect event => exact connectStep_moves hpc event
      | run => exact hself .connecting hpc (by decide)
      | traffic clientRing serverRing => exact hself .connecting hpc (by decide)
      | ending => exact hself .connecting hpc (by decide)
  | testServer =>
      dsimp only
      split_ifs <;> simp [successors]
  | closeEarly => simp [successors]
  | clearEarly => simp [successors]
  | proxy =>
      cases event with
      | traffic clientRing serverRing => exact hself .proxy hpc (by decide)
      | ending => simp [successors]
      | run => exact hself .proxy hpc (by decide)
      | connect event => exact hself .proxy hpc (by decide)
  | testClient =>
      dsimp only
      split_ifs <;> simp [successors]
  | closeClient => simp [successors]
  | clearClient => simp [successors]
  | testServerEnd =>
      dsimp only
      split_ifs <;> simp [successors]
  | closeServer => simp [successors]
  | clearServer => simp [successors]

end Worker

/-! ## A step of the acceptor, and of any thread -/

section Others

variable {s : Handover} {i : ℕ}

/-- The acceptor does not touch server sockets. -/
theorem startStep_server (s : Handover) (create : ThreadCreate) (client : ℤ) (passthrough : Bool)
    (k i : ℕ) (pc : StartPc) :
    ((s.startStep create client passthrough k pc).ctx i).serverSocket = (s.ctx i).serverSocket := by
  by_cases hi : i = k
  · subst hi
    unfold Handover.startStep
    cases pc <;> dsimp only <;> (try split_ifs) <;>
      simp only [Handover.goto, Handover.update, Function.update_self]
  · rw [startStep_ctx_of_ne s create client passthrough hi pc]

/-- The acceptor does nothing to a worker but to create it. -/
theorem startStep_worker (s : Handover) (create : ThreadCreate) (client : ℤ) (passthrough : Bool)
    (k i : ℕ) (pc : StartPc) :
    (s.startStep create client passthrough k pc).worker i = s.worker i ∨
      pc = .createThread ∧ i = k ∧
        (s.startStep create client passthrough k pc).worker i = .wait := by
  unfold Handover.startStep
  cases pc with
  | createThread =>
      dsimp only
      split_ifs
      · exact Or.inl rfl
      · by_cases hi : i = k
        · subst hi
          exact Or.inr ⟨rfl, rfl, Function.update_self _ _ _⟩
        · exact Or.inl (Function.update_of_ne hi _ _)
  | testClient =>
      left
      dsimp only
      split_ifs <;> rfl
  | testThread =>
      left
      dsimp only
      split_ifs <;> rfl
  | resetClientRing => exact Or.inl rfl
  | resetServerRing => exact Or.inl rfl
  | setClient => exact Or.inl rfl
  | setPassthrough => exact Or.inl rfl
  | closeClient => exact Or.inl rfl

/-- The acceptor logs an `install` or a `close`. -/
theorem startStep_log (s : Handover) (create : ThreadCreate) (client : ℤ) (passthrough : Bool)
    (k : ℕ) (pc : StartPc) :
    (s.startStep create client passthrough k pc).log = s.log ∨
      ∃ e, (s.startStep create client passthrough k pc).log = e :: s.log ∧ actor e = .acceptor := by
  unfold Handover.startStep
  cases pc with
  | setClient => exact Or.inr ⟨_, rfl, rfl⟩
  | closeClient => exact Or.inr ⟨_, rfl, rfl⟩
  | testClient =>
      left
      dsimp only
      split_ifs <;> rfl
  | testThread =>
      left
      dsimp only
      split_ifs <;> rfl
  | createThread =>
      left
      dsimp only
      split_ifs <;> rfl
  | resetClientRing => exact Or.inl rfl
  | resetServerRing => exact Or.inl rfl
  | setPassthrough => exact Or.inl rfl

/-- The acceptor leaves the number of contexts, and takes no sockets in a call. -/
theorem startStep_cnt (s : Handover) (create : ThreadCreate) (client : ℤ) (passthrough : Bool)
    (k : ℕ) (pc : StartPc) :
    (s.startStep create client passthrough k pc).cnt = s.cnt ∧
      (s.startStep create client passthrough k pc).sockets = s.sockets := by
  unfold Handover.startStep
  cases pc <;> dsimp only <;> (try split_ifs) <;> exact ⟨rfl, rfl⟩

/-- No step changes the number of contexts. -/
theorem handoverStep_cnt (s : Handover) (input : HandoverInput) : (handoverStep s input).cnt = s.cnt := by
  unfold handoverStep
  cases input with
  | arrive client passthrough =>
      dsimp only [Handover.arrive]
      split_ifs <;> rfl
  | acceptor create =>
      cases hpc : s.acceptor with
      | idle => rfl
      | start pc client passthrough k => exact (startStep_cnt s create client passthrough k pc).1
  | worker k event => exact (workerStep_frame s k event).cnt

/-- Nor does a run. -/
theorem run_cnt (s : Handover) (inputs : List HandoverInput) :
    (run handoverStep s inputs).cnt = s.cnt :=
  run_invariant (fun t : Handover => t.cnt = s.cnt)
    (fun t input h => by rw [handoverStep_cnt, h]) rfl inputs

/-- A socket that has been handed out is not forgotten. -/
theorem handoverStep_sockets (s : Handover) (input : HandoverInput) {socket : ℤ}
    (h : socket ∈ s.sockets) : socket ∈ (handoverStep s input).sockets := by
  unfold handoverStep
  cases input with
  | arrive client passthrough =>
      dsimp only [Handover.arrive]
      split_ifs
      · exact List.mem_cons_of_mem client h
      · exact h
  | acceptor create =>
      cases hpc : s.acceptor with
      | idle => exact h
      | start pc client passthrough k =>
          dsimp only
          rw [(startStep_cnt s create client passthrough k pc).2]
          exact h
  | worker k event => exact (workerStep_keeps s k event).sockets socket h

/-- Nothing is struck off the log. -/
theorem log_mono (s : Handover) (input : HandoverInput) {e : SocketEvent} (he : e ∈ s.log) :
    e ∈ (handoverStep s input).log := by
  unfold handoverStep
  cases input with
  | arrive client passthrough =>
      dsimp only [Handover.arrive]
      split_ifs <;> exact he
  | acceptor create =>
      cases hpc : s.acceptor with
      | idle => exact he
      | start pc client passthrough k =>
          rcases startStep_log s create client passthrough k pc with hlog | ⟨e', hlog, -⟩
          · dsimp only
            rw [hlog]
            exact he
          · dsimp only
            rw [hlog]
            exact List.mem_cons_of_mem e' he
  | worker k event => exact (workerStep_frame s k event).log he

/-- A server socket is opened by a worker in `tcp_connect`, for the client it has seen. -/
theorem opened_of_step (s : Handover) (input : HandoverInput) {j : ℕ} {client server : ℤ}
    (hmem : .openServer j client server ∈ (handoverStep s input).log) :
    .openServer j client server ∈ s.log ∨ (∃ event, input = .worker j event) ∧
      s.worker j = .connecting ∧ client = s.seen j ∧ s.Fresh server := by
  unfold handoverStep at hmem
  cases input with
  | arrive client' passthrough =>
      dsimp only [Handover.arrive] at hmem
      split_ifs at hmem
      · exact Or.inl hmem
      · exact Or.inl hmem
  | acceptor create =>
      cases hpc : s.acceptor with
      | idle =>
          simp only [hpc] at hmem
          exact Or.inl hmem
      | start pc client' passthrough k =>
          simp only [hpc] at hmem
          rcases startStep_log s create client' passthrough k pc with hlog | ⟨e', hlog, hactor⟩
          · rw [hlog] at hmem
            exact Or.inl hmem
          · rw [hlog] at hmem
            cases hmem with
            | head => cases hactor
            | tail _ hmem => exact Or.inl hmem
  | worker k event =>
      obtain ⟨server', hopens⟩ := (workerStep_frame s k event).opens
      cases hopens j client server hmem with
      | inl hold => exact Or.inl hold
      | inr hnew =>
          obtain ⟨hpc, rfl, rfl, rfl, hfresh⟩ := hnew
          exact Or.inr ⟨⟨event, rfl⟩, hpc, rfl, hfresh⟩

/-- Another thread leaves a worker where it is, or creates it. -/
theorem worker_of_other (s : Handover) {input : HandoverInput}
    (hother : ∀ event, input ≠ .worker i event) :
    (handoverStep s input).worker i = s.worker i ∨ (handoverStep s input).worker i = .wait := by
  unfold handoverStep
  cases input with
  | arrive client passthrough =>
      left
      dsimp only [Handover.arrive]
      split_ifs <;> rfl
  | acceptor create =>
      cases hpc : s.acceptor with
      | idle => exact Or.inl rfl
      | start pc client passthrough k =>
          rcases startStep_worker s create client passthrough k i pc with hsame | ⟨-, -, hwait⟩
          · exact Or.inl hsame
          · exact Or.inr hwait
  | worker k event =>
      have hne : i ≠ k := by
        rintro rfl
        exact hother event rfl
      exact Or.inl ((workerStep_frame s k event).ctx i hne).2

/-- A worker that is there is moved by its own steps only. -/
theorem worker_of_other_present (h : Inv s) (hpresent : s.worker i ≠ .absent)
    {input : HandoverInput} (hother : ∀ event, input ≠ .worker i event) :
    (handoverStep s input).worker i = s.worker i := by
  unfold handoverStep
  cases input with
  | arrive client passthrough =>
      dsimp only [Handover.arrive]
      split_ifs <;> rfl
  | acceptor create =>
      cases hpc : s.acceptor with
      | idle => rfl
      | start pc client passthrough k =>
          rcases startStep_worker s create client passthrough k i pc with hsame | ⟨rfl, rfl, -⟩
          · exact hsame
          · exact absurd (h.acceptor.creating client passthrough i hpc) ((h.ctx i).created hpresent)
  | worker k event =>
      have hne : i ≠ k := by
        rintro rfl
        exact hother event rfl
      exact ((workerStep_frame s k event).ctx i hne).2

/-- The server socket of a context is changed by its own worker only. -/
theorem server_of_other (s : Handover) {input : HandoverInput}
    (hother : ∀ event, input ≠ .worker i event) :
    ((handoverStep s input).ctx i).serverSocket = (s.ctx i).serverSocket := by
  unfold handoverStep
  cases input with
  | arrive client passthrough =>
      dsimp only [Handover.arrive]
      split_ifs <;> rfl
  | acceptor create =>
      cases hpc : s.acceptor with
      | idle => rfl
      | start pc client passthrough k => exact startStep_server s create client passthrough k i pc
  | worker k event =>
      have hne : i ≠ k := by
        rintro rfl
        exact hother event rfl
      dsimp only
      rw [((workerStep_frame s k event).ctx i hne).1]

/-- A worker comes to the proxy loop from the test of its server socket. -/
theorem proxy_of_step (s : Handover) {input : HandoverInput} (hbefore : s.worker i ≠ .proxy)
    (hafter : (handoverStep s input).worker i = .proxy) :
    s.worker i = .testServer ∧ (s.ctx i).serverSocket ≠ invalidSocket ∧
      (handoverStep s input).ctx i = s.ctx i := by
  by_cases hown : ∃ event, input = .worker i event
  · obtain ⟨event, rfl⟩ := hown
    have hmoves := workerStep_moves s i event
    have hpc' : (s.workerStep i event).worker i = .proxy := hafter
    rw [hpc'] at hmoves
    have hpc := testServer_of_successors hmoves hbefore
    refine ⟨hpc, ?_⟩
    show (s.ctx i).serverSocket ≠ invalidSocket ∧ (s.workerStep i event).ctx i = s.ctx i
    unfold Handover.workerStep at hpc' ⊢
    simp only [hpc] at hpc' ⊢
    by_cases hserver : (s.ctx i).serverSocket = invalidSocket
    · rw [if_pos hserver, workerAt_worker] at hpc'
      cases hpc'
    · rw [if_neg hserver]
      exact ⟨hserver, rfl⟩
  · cases worker_of_other s (i := i) (fun event h => hown ⟨event, h⟩) with
    | inl hsame => exact absurd (hsame ▸ hafter) hbefore
    | inr hwait =>
        rw [hwait] at hafter
        cases hafter

/-- A context with its worker is as it was, but for the mode. -/
structure OthersKeep (s s' : Handover) (i : ℕ) : Prop where
  worker : s'.worker i = s.worker i
  client : (s'.ctx i).clientSocket = (s.ctx i).clientSocket
  server : (s'.ctx i).serverSocket = (s.ctx i).serverSocket
  clientRing : (s'.ctx i).clientRing = (s.ctx i).clientRing
  serverRing : (s'.ctx i).serverRing = (s.ctx i).serverRing

/-- **A context with a client is left alone** by all threads but its worker. -/
theorem others_keep (h : Inv s) (hvalid : (s.ctx i).clientSocket ≠ invalidSocket)
    {input : HandoverInput} (hother : ∀ event, input ≠ .worker i event) :
    OthersKeep s (handoverStep s input) i := by
  have hserver := server_of_other s hother
  cases input with
  | arrive client passthrough =>
      show OthersKeep s (s.arrive client passthrough) i
      unfold Handover.arrive
      split_ifs <;> exact ⟨rfl, rfl, rfl, rfl, rfl⟩
  | acceptor create =>
      obtain ⟨hclient, hclientRing, hserverRing⟩ := acceptor_keeps h create hvalid
      refine ⟨?_, hclient, hserver, hclientRing, hserverRing⟩
      unfold handoverStep
      cases hpc : s.acceptor with
      | idle => rfl
      | start pc client passthrough k =>
          rcases startStep_worker s create client passthrough k i pc with hsame | ⟨rfl, rfl, -⟩
          · exact hsame
          · exact absurd (clientSocket_of_found h hpc rfl) hvalid
  | worker k event =>
      have hne : i ≠ k := by
        rintro rfl
        exact hother event rfl
      obtain ⟨hctx, hworker⟩ := (workerStep_frame s k event).ctx i hne
      show OthersKeep s (s.workerStep k event) i
      refine ⟨hworker, ?_, ?_, ?_, ?_⟩ <;> rw [hctx]

end Others

end SmbProxy.Analysis
