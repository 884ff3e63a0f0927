import SmbProxy.Model.Gateway

/-!
# The pool of contexts and the accept loop

smbgw.c:347-474, gwtcp.c:71-136, main.cc:162-184. `smbgw_proxy_start` hands a client to the
first idle context of the pool and creates the thread of the context if it has none yet.
`main` calls it for every client that `tcp_accept_connection` brings, until one of the two
does not return 0. Then `main` returns, and the process and its threads end.

What the system calls do is the environment's choice: an `AcceptEvent` is the outcome of
the `select`, `accept` and `ioctl` of one `tcp_accept_connection`, a `ThreadCreate` that of
one `pthread_create`. Log lines are left out.
-/

set_option autoImplicit false

namespace SmbProxy.Model

open SmbProxy.Library

/-- `INVALID_SOCKET`.
SOURCE: butil.h:56 -/
def invalidSocket : ℤ := -1

/-- `smb_ctx_t`. A `thread` of 0 is none.
SOURCE: smbcontext.h:10-23 -/
structure SmbCtx where
  clientSocket : ℤ
  serverSocket : ℤ
  clientRing : Ioring
  serverRing : Ioring
  passthrough : Bool
  ordinal : ℤ
  thread : ℕ

/-- A `pthread_create`: its return value, and what is in `thread` after it. A thread that
has been created has an identity that is not 0; after a failure the field holds anything. -/
structure ThreadCreate where
  result : ℤ
  thread : ℕ
  created : result = 0 → thread ≠ 0

/-- The contexts that `smbgw_proxy_init` sets up over the data `malloc` returns.
SOURCE: smbgw.c:373-400 -/
def smbgwProxyInit (maxConnections : ℕ) (size : ℤ) (clientData serverData : ℕ → ℤ → UInt8) :
    List SmbCtx :=
  (List.range maxConnections).map fun i =>
    { clientSocket := invalidSocket
      serverSocket := invalidSocket
      clientRing := butilResetRing ⟨0, 0, 0, size, clientData i⟩
      serverRing := butilResetRing ⟨0, 0, 0, size, serverData i⟩
      passthrough := false
      ordinal := i
      thread := 0 }

/-! ## `smbgw_proxy_start` -/

/-- The context takes the client.
SOURCE: smbgw.c:456-460 -/
def SmbCtx.install (ctx : SmbCtx) (client : ℤ) (passthrough : Bool) : SmbCtx :=
  { ctx with
    clientRing := butilResetRing ctx.clientRing
    serverRing := butilResetRing ctx.serverRing
    clientSocket := client
    passthrough := passthrough }

/-- How the loop over the contexts ends: at its `return`, at its `break`, or behind the
last context. -/
inductive StartLoopEnd
  | returned
  | broken
  | exhausted
  deriving DecidableEq

/-- The loop over the contexts.
SOURCE: smbgw.c:442-464 -/
def startLoop (client : ℤ) (passthrough : Bool) (create : ThreadCreate) :
    List SmbCtx → List SmbCtx × StartLoopEnd
  | [] => ([], .exhausted)
  | ctx :: rest =>
    if ctx.clientSocket = invalidSocket then
      if ctx.thread = 0 then
        let ctx := { ctx with thread := create.thread }
        if create.result ≠ 0 then (ctx :: rest, .returned)
        else (ctx.install client passthrough :: rest, .broken)
      else (ctx.install client passthrough :: rest, .broken)
    else
      let (rest, last) := startLoop client passthrough create rest
      (ctx :: rest, last)

/-- What `smbgw_proxy_start` returns and leaves, and the sockets it has closed. -/
structure StartOutcome where
  result : ℤ
  pool : List SmbCtx
  closed : List ℤ

/-- `smbgw_proxy_start`.
SOURCE: smbgw.c:428-474 -/
def smbgwProxyStart (pool : List SmbCtx) (client : ℤ) (passthrough : Bool)
    (create : ThreadCreate) : StartOutcome :=
  if client = invalidSocket then ⟨-1, pool, []⟩
  else
    match startLoop client passthrough create pool with
    | (pool, .returned) => ⟨-1, pool, []⟩
    | (pool, .exhausted) => ⟨-1, pool, [client]⟩
    | (pool, .broken) => ⟨0, pool, []⟩

/-! ## The accept loop of `main` -/

/-- `select` fails or times out, `accept` fails, or it returns a socket and `ioctl` fails or
succeeds on it. -/
inductive AcceptEvent
  | selectFailed
  | timeout
  | acceptFailed
  | ioctlFailed (clientsock : ℕ)
  | accepted (clientsock : ℕ)
  deriving DecidableEq

/-- `tcp_accept_connection`: its return value, and what it stores at `clientsock_ptr`.
SOURCE: gwtcp.c:71-136 -/
def tcpAcceptConnection : AcceptEvent → ℤ × ℤ
  | .selectFailed => (-1, invalidSocket)
  | .timeout => (0, invalidSocket)
  | .acceptFailed => (-1, invalidSocket)
  | .ioctlFailed _ => (-1, invalidSocket)
  | .accepted clientsock => (0, clientsock)

/-- The call whose result has ended the accept loop. -/
inductive LoopEnd
  | accept
  | start
  deriving DecidableEq

/-- The pool, the sockets that `smbgw_proxy_start` has closed, and what has ended the accept
loop, if anything has. -/
structure Server where
  pool : List SmbCtx
  closed : List ℤ
  ended : Option LoopEnd

/-- One pass of the accept loop.
SOURCE: main.cc:166-181 -/
def Server.accept (s : Server) (passthrough : Bool) (event : AcceptEvent)
    (create : ThreadCreate) : Server :=
  let (result, clientSocket) := tcpAcceptConnection event
  if result ≠ 0 then { s with ended := some .accept }
  else if clientSocket ≠ invalidSocket then
    let start := smbgwProxyStart s.pool clientSocket passthrough create
    { pool := start.pool
      closed := s.closed ++ start.closed
      ended := if start.result ≠ 0 then some .start else none }
  else s

/-- What happens next: a pass of the accept loop, or something in the thread of a context
that has a client. It opens its connection to the server or uses its rings, or its
connection ends. -/
inductive ServerInput
  | accept (event : AcceptEvent) (create : ThreadCreate)
  | work (i : ℕ) (serverSocket : ℤ) (clientRing serverRing : Ioring)
  | ending (i : ℕ)

/-- The thread of a context that has a client changes what it may change of the context. -/
def SmbCtx.work (serverSocket : ℤ) (clientRing serverRing : Ioring) (ctx : SmbCtx) : SmbCtx :=
  if ctx.clientSocket = invalidSocket then ctx
  else
    { ctx with
      serverSocket := serverSocket
      clientRing := clientRing
      serverRing := serverRing }

/-- The thread of a context closes its connection down.
SOURCE: smbgw.c:330-340 -/
def SmbCtx.ending (ctx : SmbCtx) : SmbCtx :=
  if ctx.clientSocket = invalidSocket then ctx
  else { ctx with clientSocket := invalidSocket, serverSocket := invalidSocket }

/-- One step of the process. It does nothing once `main` has returned. -/
def serverStep (passthrough : Bool) (s : Server) (input : ServerInput) : Server :=
  if s.ended = none then
    match input with
    | .accept event create => s.accept passthrough event create
    | .work i serverSocket clientRing serverRing =>
      { s with pool := s.pool.modify i (SmbCtx.work serverSocket clientRing serverRing) }
    | .ending i => { s with pool := s.pool.modify i SmbCtx.ending }
  else s

/-- `main` before its accept loop. -/
def Server.init (maxConnections : ℕ) (clientData serverData : ℕ → ℤ → UInt8) : Server where
  pool := smbgwProxyInit maxConnections iobufferSize clientData serverData
  closed := []
  ended := none

end SmbProxy.Model
