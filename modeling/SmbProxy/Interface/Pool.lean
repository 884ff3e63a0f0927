import SmbProxy.Model.Pool

/-!
# Who owns an accepted socket

What `smbgw_proxy_start` owes to a client socket: a context holds it, or it is closed
(`KeepsSocket`). And what the accept loop owes to its clients: that it goes on
(`EndsOnlyOnAccept`).
-/

set_option autoImplicit false

namespace SmbProxy.Interface

open SmbProxy.Library SmbProxy.Model

/-- The first context without a client. -/
def firstIdle (pool : List SmbCtx) : Option SmbCtx :=
  pool.find? fun ctx => ctx.clientSocket = invalidSocket

/-- The sockets and rings of a context. -/
def sockets (ctx : SmbCtx) : ℤ × ℤ × Ioring × Ioring :=
  (ctx.clientSocket, ctx.serverSocket, ctx.clientRing, ctx.serverRing)

/-- The context at `i` had no client and has this one now. -/
def TakenAt (pool pool' : List SmbCtx) (client : ℤ) (i : ℕ) : Prop :=
  ∃ ctx ctx', pool[i]? = some ctx ∧ pool'[i]? = some ctx' ∧
    ctx.clientSocket = invalidSocket ∧ ctx'.clientSocket = client

/-- Either exactly one context that was idle holds the client, with empty rings and the
flag, and nothing else has changed; or the client has been closed and no context's sockets
or rings have changed. -/
structure KeepsSocket (pool : List SmbCtx) (client : ℤ) (passthrough : Bool)
    (out : StartOutcome) : Prop where
  taken : out.result = 0 → out.closed = [] ∧ (∃! i, TakenAt pool out.pool client i) ∧
    (∀ i ctx, TakenAt pool out.pool client i → out.pool[i]? = some ctx →
      ctx.clientRing.count = 0 ∧ ctx.serverRing.count = 0 ∧ ctx.passthrough = passthrough) ∧
    ∀ i, ¬ TakenAt pool out.pool client i → out.pool[i]? = pool[i]?
  refused : out.result ≠ 0 →
    out.closed = [client] ∧ out.pool.map sockets = pool.map sockets

/-- The first idle context has its thread, or the thread can be created. -/
def CanStart (pool : List SmbCtx) (create : ThreadCreate) : Prop :=
  ∀ ctx, firstIdle pool = some ctx → ctx.thread = 0 → create.result = 0

/-- The accept loop goes on, or `tcp_accept_connection` has failed. -/
def EndsOnlyOnAccept (s : Server) : Prop := s.ended ≠ some .start

/-- Contexts that have a client are as they were. -/
def Untouched (pool pool' : List SmbCtx) : Prop :=
  ∀ (i : ℕ) (ctx : SmbCtx), pool[i]? = some ctx → ctx.clientSocket ≠ invalidSocket →
    pool'[i]? = some ctx

/-- In every state that is reached the accept loop has not been ended by a client that could
not be started, and what comes out of its next pass leaves the running connections alone. -/
def SurvivesOverload (passthrough : Bool) (s : Server) (inputs : List ServerInput) : Prop :=
  ∀ before, before <+: inputs → EndsOnlyOnAccept (run (serverStep passthrough) s before) ∧
    ∀ event create, Untouched (run (serverStep passthrough) s before).pool
      (serverStep passthrough (run (serverStep passthrough) s before) (.accept event create)).pool

/-- If a client arrives, then a context is idle, and the first one can be started. -/
def Admits (s : Server) : ServerInput → Prop
  | .accept (.accepted _) create =>
    s.ended = none → (firstIdle s.pool).isSome ∧ CanStart s.pool create
  | _ => True

end SmbProxy.Interface
