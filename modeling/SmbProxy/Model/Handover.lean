import SmbProxy.Model.Pool

/-!
# `smbgw_proxy_start` beside the threads of the contexts

smbgw.c:44-100, smbgw.c:326-342, smbgw.c:428-474, gwtcp.c:138-230. The acceptor is the thread
of `main`, which runs `smbgw_proxy_start` for one client after the other; every context
has a worker, which runs `smbgw_thread`. A test or an assignment of a field of a context,
a `butil_reset_ring`, a `closesocket`, a `socket` or `connect` is one step, and the steps of
the acceptor and the workers come in any order.

The proxy loop between the two ends of a connection is here a worker that does whatever it
likes to its rings. Nothing sets `s_exit_threads`, so no worker leaves its loop, and a client
that has been accepted is not `INVALID_SOCKET`, so the first test of `smbgw_proxy_start` has
no instruction. Sockets are identities: one that has been handed out once does not come
again. `seen` is the client that a worker has last seen, and `log` what has happened to the
sockets, the latest event first; the code reads neither.
-/

set_option autoImplicit false

namespace SmbProxy.Model

open SmbProxy.Library

/-! ## Program counters -/

/-- The instructions of `smbgw_proxy_start`.
SOURCE: smbgw.c:442-473 -/
inductive StartPc
  | testClient
  | testThread
  | createThread
  | resetClientRing
  | resetServerRing
  | setClient
  | setPassthrough
  | closeClient
  deriving DecidableEq

/-- The acceptor waits for a client, or is in `smbgw_proxy_start` for one, at context `i`. -/
inductive AcceptorPc
  | idle
  | start (pc : StartPc) (client : ℤ) (passthrough : Bool) (i : ℕ)
  deriving DecidableEq

/-- The instructions of `smbgw_thread`. `absent` is a thread that has not been created.
SOURCE: smbgw.c:60-100, smbgw.c:330-340 -/
inductive WorkerPc
  | absent
  | wait
  | testSeen
  | connect
  | connecting
  | testServer
  | closeEarly
  | clearEarly
  | proxy
  | testClient
  | closeClient
  | clearClient
  | testServerEnd
  | closeServer
  | clearServer
  deriving DecidableEq

/-! ## Events -/

/-- Who closes a socket. -/
inductive Actor
  | acceptor
  | worker (i : ℕ)
  deriving DecidableEq

/-- What happens to the sockets. A server socket is opened and closed by the worker of a
context for a client. -/
inductive SocketEvent
  | install (i : ℕ) (client : ℤ)
  | close (actor : Actor) (client : ℤ)
  | openServer (i : ℕ) (client server : ℤ)
  | closeServer (i : ℕ) (client server : ℤ)
  deriving DecidableEq

/-- The contexts with the acceptor and the workers. -/
structure Handover where
  cnt : ℕ
  ctx : ℕ → SmbCtx
  acceptor : AcceptorPc
  worker : ℕ → WorkerPc
  seen : ℕ → ℤ
  sockets : List ℤ
  log : List SocketEvent

/-- `s_ctx` as `smbgw_proxy_init` leaves it. -/
def Handover.init (maxConnections : ℕ) (size : ℤ) (clientData serverData : ℕ → ℤ → UInt8) :
    Handover where
  cnt := maxConnections
  ctx := fun i =>
    { clientSocket := invalidSocket
      serverSocket := invalidSocket
      clientRing := butilResetRing ⟨0, 0, 0, size, clientData i⟩
      serverRing := butilResetRing ⟨0, 0, 0, size, serverData i⟩
      passthrough := false
      ordinal := i
      thread := 0 }
  acceptor := .idle
  worker := fun _ => .absent
  seen := fun _ => invalidSocket
  sockets := []
  log := []

/-- One context changes. -/
def Handover.update (s : Handover) (i : ℕ) (f : SmbCtx → SmbCtx) : Handover :=
  { s with ctx := Function.update s.ctx i (f (s.ctx i)) }

/-! ## The acceptor -/

/-- The acceptor goes to another instruction. -/
def Handover.goto (s : Handover) (acceptor : AcceptorPc) : Handover :=
  { s with acceptor := acceptor }

/-- The next instruction of `smbgw_proxy_start`. The loop test is part of the test of
`client_socket`.
SOURCE: smbgw.c:442-473 -/
def Handover.startStep (s : Handover) (create : ThreadCreate) (client : ℤ) (passthrough : Bool)
    (i : ℕ) : StartPc → Handover
  | .testClient =>
    if i < s.cnt then
      if (s.ctx i).clientSocket = invalidSocket then
        s.goto (.start .testThread client passthrough i)
      else s.goto (.start .testClient client passthrough (i + 1))
    else s.goto (.start .closeClient client passthrough i)
  | .testThread =>
    if (s.ctx i).thread = 0 then s.goto (.start .createThread client passthrough i)
    else s.goto (.start .resetClientRing client passthrough i)
  | .createThread =>
    let s := s.update i fun ctx => { ctx with thread := create.thread }
    if create.result ≠ 0 then s.goto .idle
    else
      { s with worker := Function.update s.worker i .wait }.goto
        (.start .resetClientRing client passthrough i)
  | .resetClientRing =>
    (s.update i fun ctx => { ctx with clientRing := butilResetRing ctx.clientRing }).goto
      (.start .resetServerRing client passthrough i)
  | .resetServerRing =>
    (s.update i fun ctx => { ctx with serverRing := butilResetRing ctx.serverRing }).goto
      (.start .setClient client passthrough i)
  | .setClient =>
    { s.update i fun ctx => { ctx with clientSocket := client } with
      log := .install i client :: s.log }.goto (.start .setPassthrough client passthrough i)
  | .setPassthrough =>
    (s.update i fun ctx => { ctx with passthrough := passthrough }).goto .idle
  | .closeClient => { s with log := .close .acceptor client :: s.log }.goto .idle

/-- A socket that the system has not handed out before. -/
def Handover.Fresh (s : Handover) (socket : ℤ) : Prop := 0 ≤ socket ∧ socket ∉ s.sockets

instance (s : Handover) (socket : ℤ) : Decidable (s.Fresh socket) :=
  inferInstanceAs (Decidable (_ ∧ _))

/-- A client for the idle acceptor. -/
def Handover.arrive (s : Handover) (client : ℤ) (passthrough : Bool) : Handover :=
  if s.acceptor = .idle ∧ s.Fresh client then
    { s with sockets := client :: s.sockets }.goto (.start .testClient client passthrough 0)
  else s

/-! ## A worker -/

/-- The outcome of `tcp_connect` behind its first assignment: `socket` fails, what follows
fails and the socket is closed again, or the socket is stored. -/
inductive ConnectEvent
  | noSocket
  | refused (server : ℤ)
  | connected (server : ℤ)
  deriving DecidableEq

/-- What the environment of a worker chooses: nothing, the outcome of a `tcp_connect`, what
the proxy loop does to the rings, or its end. -/
inductive WorkerEvent
  | run
  | connect (event : ConnectEvent)
  | traffic (clientRing serverRing : Ioring)
  | ending

/-- A worker goes to another instruction. -/
def Handover.workerAt (s : Handover) (i : ℕ) (pc : WorkerPc) : Handover :=
  { s with worker := Function.update s.worker i pc }

/-- `tcp_connect` behind its first assignment.
SOURCE: gwtcp.c:154-229, smbgw.c:71-79 -/
def Handover.connectStep (s : Handover) (i : ℕ) : ConnectEvent → Handover
  | .noSocket => s.workerAt i .closeEarly
  | .refused server =>
    if s.Fresh server then
      { s with
        sockets := server :: s.sockets
        log := .closeServer i (s.seen i) server :: .openServer i (s.seen i) server :: s.log }.workerAt
          i .closeEarly
    else s
  | .connected server =>
    if s.Fresh server then
      { s.update i fun ctx => { ctx with serverSocket := server } with
        sockets := server :: s.sockets
        log := .openServer i (s.seen i) server :: s.log }.workerAt i .testServer
    else s

/-- The next instruction of `smbgw_thread`.
SOURCE: smbgw.c:56-100, smbgw.c:326-342 -/
def Handover.workerStep (s : Handover) (i : ℕ) (event : WorkerEvent) : Handover :=
  match s.worker i with
  | .absent => s
  | .wait =>
    if (s.ctx i).clientSocket = invalidSocket then s
    else { s with seen := Function.update s.seen i (s.ctx i).clientSocket }.workerAt i .testSeen
  | .testSeen =>
    if (s.ctx i).clientSocket ≠ invalidSocket then s.workerAt i .connect else s.workerAt i .wait
  | .connect =>
    (s.update i fun ctx => { ctx with serverSocket := invalidSocket }).workerAt i .connecting
  | .connecting =>
    match event with
    | .connect event => s.connectStep i event
    | _ => s
  | .testServer =>
    if (s.ctx i).serverSocket = invalidSocket then s.workerAt i .closeEarly else s.workerAt i .proxy
  | .closeEarly =>
    { s with log := .close (.worker i) (s.ctx i).clientSocket :: s.log }.workerAt i .clearEarly
  | .clearEarly =>
    (s.update i fun ctx => { ctx with clientSocket := invalidSocket }).workerAt i .wait
  | .proxy =>
    match event with
    | .traffic clientRing serverRing =>
      s.update i fun ctx => { ctx with clientRing := clientRing, serverRing := serverRing }
    | .ending => s.workerAt i .testClient
    | _ => s
  | .testClient =>
    if (s.ctx i).clientSocket ≠ invalidSocket then s.workerAt i .closeClient
    else s.workerAt i .testServerEnd
  | .closeClient =>
    { s with log := .close (.worker i) (s.ctx i).clientSocket :: s.log }.workerAt i .clearClient
  | .clearClient =>
    (s.update i fun ctx => { ctx with clientSocket := invalidSocket }).workerAt i .testServerEnd
  | .testServerEnd =>
    if (s.ctx i).serverSocket ≠ invalidSocket then s.workerAt i .closeServer
    else s.workerAt i .wait
  | .closeServer =>
    { s with log := .closeServer i (s.seen i) (s.ctx i).serverSocket :: s.log }.workerAt i .clearServer
  | .clearServer =>
    (s.update i fun ctx => { ctx with serverSocket := invalidSocket }).workerAt i .wait

/-! ## All together -/

/-- What happens next: a client arrives, or one of the threads executes an instruction. -/
inductive HandoverInput
  | arrive (client : ℤ) (passthrough : Bool)
  | acceptor (create : ThreadCreate)
  | worker (i : ℕ) (event : WorkerEvent)

def handoverStep (s : Handover) : HandoverInput → Handover
  | .arrive client passthrough => s.arrive client passthrough
  | .acceptor create =>
    match s.acceptor with
    | .idle => s
    | .start pc client passthrough i => s.startStep create client passthrough i pc
  | .worker i event => s.workerStep i event

end SmbProxy.Model
