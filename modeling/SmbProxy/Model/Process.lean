import SmbProxy.Model.Handover
import SmbProxy.Model.Smb

/-!
# The whole process

smbgw.c:44-345, smbgw.c:428-474. `Handover` runs the acceptor and the workers between two
connections, one instruction at a time, and leaves the proxy loop open; `Conn` is the
proxy loop of one worker alone. Here they run together. A worker in the loop takes the steps of
`Conn` on the rings and the flag of its own context, on its local variables, and on the
two sockets that its context holds at that moment (`Process.conn`, `Process.put`). The
only thing another thread may do to such a context is the assignment of `passthrough`,
which a half reads once, so that a half up to its `tcp_write` is one step.

`smbgwVerdict` is what `smbproto_packet` makes of the memory the loop hands it, where it has
returned after `fuel` passes. A call that does not return sends nothing on, like one that
rejects, and is counted as such.

What has come out of a socket and gone into it is kept for every socket ever handed out,
under its number; the code reads neither that nor `judged`.
-/

set_option autoImplicit false

namespace SmbProxy.Model

open SmbProxy.Library

/-! ## A worker in the proxy loop -/

/-- The socket of a side. -/
def SmbCtx.socket (ctx : SmbCtx) : Side → ℤ
  | .client => ctx.clientSocket
  | .server => ctx.serverSocket

/-- The ring of the half that reads from a side. -/
def SmbCtx.ring (ctx : SmbCtx) : Side → Ioring
  | .client => ctx.clientRing
  | .server => ctx.serverRing

/-- The local variables of `smbgw_thread` that the proxy loop carries along, and where it is.
SOURCE: smbgw.c:52-54 -/
structure ProxyLocals where
  packetState : Side → PacketState
  packetRemain : Side → ℤ
  pc : Pc

/-- What the local variables are set to before the loop.
SOURCE: smbgw.c:92-100 -/
def ProxyLocals.start : ProxyLocals where
  packetState := fun _ => .psHeader
  packetRemain := fun _ => 4
  pc := .read .client

/-- All threads, with the variables of each worker. `socket` is what has passed through a
socket, `judged` the blocks read from it on which `packet` was called. -/
structure Process where
  handover : Handover
  locals : ℕ → ProxyLocals
  socket : ℤ → Socket
  judged : ℤ → List (List UInt8 × ℤ)

/-- The process behind `smbgw_proxy_init`. The local variables are not initialised. -/
def Process.init (maxConnections : ℕ) (size : ℤ) (clientData serverData : ℕ → ℤ → UInt8)
    (locals : ℕ → ProxyLocals) : Process where
  handover := Handover.init maxConnections size clientData serverData
  locals := locals
  socket := fun _ => ⟨[], []⟩
  judged := fun _ => []

/-- The proxy loop of a worker, as it finds its context. -/
def Process.conn (s : Process) (i : ℕ) : Conn where
  passthrough := (s.handover.ctx i).passthrough
  half := fun side =>
    ⟨(s.handover.ctx i).ring side, (s.locals i).packetState side, (s.locals i).packetRemain side⟩
  socket := fun side => s.socket ((s.handover.ctx i).socket side)
  judged := fun side => s.judged ((s.handover.ctx i).socket side)
  pc := (s.locals i).pc

/-- The state of a proxy loop goes back to where it is kept. -/
def Process.put (s : Process) (i : ℕ) (c : Conn) : Process where
  handover := s.handover.update i fun ctx =>
    { ctx with clientRing := (c.half .client).ring, serverRing := (c.half .server).ring }
  locals := Function.update s.locals i
    ⟨fun side => (c.half side).packetState, fun side => (c.half side).packetRemain, c.pc⟩
  socket := Function.update
    (Function.update s.socket ((s.handover.ctx i).socket .client) (c.socket .client))
    ((s.handover.ctx i).socket .server) (c.socket .server)
  judged := Function.update
    (Function.update s.judged ((s.handover.ctx i).socket .client) (c.judged .client))
    ((s.handover.ctx i).socket .server) (c.judged .server)

/-! ## Steps -/

/-- What the environment does to a worker in the loop: the outcome of the `tcp_read` it is
at, or of a pass of the `tcp_write` it is in. -/
inductive LoopEvent
  | read (event : ReadEvent)
  | write (event : WriteEvent)
  deriving DecidableEq

/-- The event as an input of the proxy loop. -/
def LoopEvent.input : LoopEvent → Input
  | .read event => .read event
  | .write event => .write event

/-- The loop has been left. -/
def Pc.left : Pc → Bool
  | .idle _ => true
  | _ => false

/-- A step of a worker in the proxy loop. Out of the loop it goes on at the test of its
client socket.
SOURCE: smbgw.c:102-330 -/
def Process.loopStep (packet : Bool → (ℤ → UInt8) → ℤ → ℤ) (s : Process) (i : ℕ)
    (event : LoopEvent) : Process :=
  if s.handover.worker i = .proxy then
    let c := step packet (s.conn i) event.input
    let s := s.put i c
    if c.pc.left then { s with handover := s.handover.workerAt i .testClient } else s
  else s

/-- A step of a worker outside the proxy loop. When it comes to the loop it sets its
variables.
SOURCE: smbgw.c:56-100, smbgw.c:330-342 -/
def Process.workerStep (s : Process) (i : ℕ) (event : WorkerEvent) : Process :=
  if s.handover.worker i = .proxy then s
  else
    let handover := s.handover.workerStep i event
    if handover.worker i = .proxy then
      { s with handover := handover, locals := Function.update s.locals i .start }
    else { s with handover := handover }

/-- What happens next: a client arrives, a thread outside the proxy loop executes an
instruction, or a worker in the loop comes one step further. -/
inductive ProcessInput
  | arrive (client : ℤ) (passthrough : Bool)
  | acceptor (create : ThreadCreate)
  | worker (i : ℕ) (event : WorkerEvent)
  | loop (i : ℕ) (event : LoopEvent)

def processStep (packet : Bool → (ℤ → UInt8) → ℤ → ℤ) (s : Process) : ProcessInput → Process
  | .arrive client passthrough =>
    { s with handover := handoverStep s.handover (.arrive client passthrough) }
  | .acceptor create => { s with handover := handoverStep s.handover (.acceptor create) }
  | .worker i event => s.workerStep i event
  | .loop i event => s.loopStep packet i event

/-! ## The verdict -/

/-- `smbproto_packet` on the `bytes` from `pkt` on, where `literal` is what lies at the string
`""`.
SOURCE: smbgw.c:34-42 -/
def smbgwVerdict (literal : ℤ → UInt8) (hliteral : literal 0 = 0) (fuel : ℕ) (isclient : Bool)
    (pkt : ℤ → UInt8) (bytes : ℤ) : ℤ :=
  if h : 0 ≤ bytes ∧ bytes < 2 ^ 31 then
    (smbprotoPacket ⟨pkt, literal, bytes, hliteral, h.1, h.2⟩ isclient fuel).result.getD (-1)
  else -1

end SmbProxy.Model
