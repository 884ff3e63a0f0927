import SmbProxy.Interface.Handover
import SmbProxy.Interface.Proxy
import SmbProxy.Model.Process

/-!
# What the process promises to its clients

Every client has a server socket of its own, and the two are connected with each other and
with nothing else, however many connections are served beside and after one another
(`Relayed`). What goes out are blocks with an SMB header in them, if every client has been
accepted without passthrough, and these are the frames of the two ends where every header is
taken for the length that it says (`Screened`). A connection goes the way it would go alone
(`RunsAlone`), with its own events only (`loopEvent`). What a worker has begun to write goes out to its last
byte, as long as `send` takes something (`Delivered`). On the way no worker leaves its rings
(`InRings`).
-/

set_option autoImplicit false

namespace SmbProxy.Interface

open SmbProxy.Library SmbProxy.Model

/-- The two sockets are the ends of one connection through the proxy. -/
def Paired (s : Process) (client server : ℤ) : Prop :=
  ∃ i, .openServer i client server ∈ s.handover.log

/-- Connections do not mix: a socket is paired once, what goes out at one end has come in at
the other, and through a socket without a partner nothing has gone. While a worker is in the
proxy loop nothing of either direction is lost. -/
structure Relayed (s : Process) : Prop where
  one_server : ∀ client server server', Paired s client server → Paired s client server' →
    server = server'
  one_client : ∀ client client' server, Paired s client server → Paired s client' server →
    client = client'
  apart : ∀ client server other, Paired s client server → ¬ Paired s server other
  to_server : ∀ client server, Paired s client server →
    (s.socket server).tx <+: (s.socket client).rx
  to_client : ∀ client server, Paired s client server →
    (s.socket client).tx <+: (s.socket server).rx
  silent : ∀ socket, (∀ other, ¬ Paired s socket other ∧ ¬ Paired s other socket) →
    (s.socket socket).rx = [] ∧ (s.socket socket).tx = []
  kept : ∀ i, s.handover.worker i = .proxy → ∀ side, Forwards (s.conn i) side

/-- Four bytes, and an SMB1 or SMB2 header with what follows it. -/
def SmbBlock (block : List UInt8) : Prop :=
  (4 + 32 ≤ block.length ∧ (block.drop 4).take 4 = smb1Magic) ∨
    (4 + 64 ≤ block.length ∧ (block.drop 4).take 4 = smb2Magic)

instance (block : List UInt8) : Decidable (SmbBlock block) := inferInstanceAs (Decidable (_ ∨ _))

/-- A block that is as long as its own four bytes say. -/
structure SmbFrame (block : List UInt8) : Prop where
  smb : SmbBlock block
  length : block.take 4 = be32Bytes (block.length - 4)

instance (block : List UInt8) : Decidable (SmbFrame block) :=
  decidable_of_iff (SmbBlock block ∧ block.take 4 = be32Bytes (block.length - 4))
    ⟨fun ⟨h1, h2⟩ => ⟨h1, h2⟩, fun ⟨h1, h2⟩ => ⟨h1, h2⟩⟩

/-- What is sent at one end are such blocks that have come in at the other, one behind the other,
the last one perhaps not yet completely. -/
def BlocksOnly (Block : List UInt8 → Prop) (source dest : Socket) : Prop :=
  ∃ blocks : List (List UInt8), (∀ block ∈ blocks, Block block) ∧ dest.tx <+: blocks.flatten ∧
    blocks.flatten <+: source.rx

/-- Nothing but such blocks gets through, in either direction. -/
structure Screened (Block : List UInt8 → Prop) (s : Process) : Prop where
  to_server : ∀ client server, Paired s client server →
    BlocksOnly Block (s.socket client) (s.socket server)
  to_client : ∀ client server, Paired s client server →
    BlocksOnly Block (s.socket server) (s.socket client)

/-- If this event completes a header, then its four bytes are those of the number that the half
takes for the length of the message. -/
def LengthTaken (c : Conn) : LoopEvent → Prop
  | .read event =>
    match c.pc with
    | .read side =>
      let half := c.half side
      let bytes := (tcpRead event half.chunk).1
      half.packetState = .psHeader → half.ring.count + bytes.length = half.packetRemain →
        half.ring.contents ++ bytes = be32Bytes (half.headerWord bytes)
    | _ => True
  | .write _ => True

instance decidableLengthTaken (c : Conn) : (event : LoopEvent) → Decidable (LengthTaken c event)
  | .write _ => inferInstanceAs (Decidable True)
  | .read event =>
    match hpc : c.pc with
    | .read side =>
      let half := c.half side
      let bytes := (tcpRead event half.chunk).1
      decidable_of_iff
        (half.packetState = .psHeader → half.ring.count + bytes.length = half.packetRemain →
          half.ring.contents ++ bytes = be32Bytes (half.headerWord bytes))
        (by simp only [LengthTaken, hpc]; rfl)
    | .write _ _ _ _ => isTrue (by simp [LengthTaken, hpc])
    | .idle _ => isTrue (by simp [LengthTaken, hpc])

/-- The same of a step of the process. -/
def LengthsTaken (s : Process) : ProcessInput → Prop
  | .loop i event => s.handover.worker i = .proxy → LengthTaken (s.conn i) event
  | _ => True

instance (s : Process) : (input : ProcessInput) → Decidable (LengthsTaken s input)
  | .loop _ _ => inferInstanceAs (Decidable (_ → _))
  | .arrive _ _ => inferInstanceAs (Decidable True)
  | .acceptor _ => inferInstanceAs (Decidable True)
  | .worker _ _ => inferInstanceAs (Decidable True)

/-- What happens to the proxy loop of this worker. -/
def loopEvent (i : ℕ) : ProcessInput → Option LoopEvent
  | .loop k event => if k = i then some event else none
  | _ => none

/-- A step of a connection alone: its mode is set, or its proxy loop comes one step further. -/
def connStep (packet : Bool → (ℤ → UInt8) → ℤ → ℤ) (c : Conn) : Bool ⊕ LoopEvent → Conn
  | .inl mode => { c with passthrough := mode }
  | .inr event => step packet c event.input

/-- The connection has come this far alone, in these modes. -/
def RunsAlone (packet : Bool → (ℤ → UInt8) → ℤ → ℤ) (Mode : Bool → Prop) (c : Conn) : Prop :=
  ∃ (c₀ : Conn) (mode : Bool) (events : List (Bool ⊕ LoopEvent)),
    (∀ side, 1 ≤ (c₀.half side).ring.size) ∧ Mode mode ∧
      (∀ mode, .inl mode ∈ events → Mode mode) ∧ c = run (connStep packet) (c₀.start mode) events

/-- Where the worker receives, has a message judged or sends, it stays inside its rings. The
message it has judged lies behind the first four bytes of a region of its ring. -/
structure InRings (packet : Bool → (ℤ → UInt8) → ℤ → ℤ) (s : Process) (size : ℤ) (i : ℕ) : Prop where
  rings : ∀ side, ((s.conn i).half side).ring.size = size
  receives : ∀ side, (s.conn i).pc = .read side → ReceiveInBounds ((s.conn i).half side)
  judges : ∀ side event, (s.conn i).pc = .read side →
    let after := sideHalf packet side (s.conn i).passthrough ((s.conn i).half side) event
    ∀ e ∈ after.judged, let ring := after.half.ring
      let region := butilRingContiguousReadPtr ring
      0 ≤ region.ptr ∧ 4 ≤ region.bytes ∧ region.ptr + region.bytes ≤ size ∧
        e.1 = window ring.data region.ptr region.bytes.toNat ∧
        e.2 = packet (decide (side = .client)) (fun k => ring.data (region.ptr + 4 + k))
          (region.bytes - 4)
  sends : ∀ side ioptr chunk sent, (s.conn i).pc = .write side ioptr chunk sent →
    0 ≤ ioptr ∧ 0 ≤ sent ∧ sent < chunk ∧ ioptr + chunk ≤ size

/-- The `send` of this worker takes some of what it is given. -/
def SendsSome (i : ℕ) : ProcessInput → Prop
  | .loop k (.write (.sent n)) => k = i → 0 < n
  | .loop k (.write _) => k ≠ i
  | _ => True

/-- The step is a pass of `tcp_write` of this worker. -/
def writesOf (i : ℕ) : ProcessInput → Bool
  | .loop k (.write _) => decide (k = i)
  | _ => false

/-- The worker is through with its write, and still has the same sockets. The other end has been
sent all that had come in before. -/
structure Delivered (before after : Process) (i : ℕ) (side : Side) : Prop where
  worker : after.handover.worker i = .proxy
  ends : (after.handover.ctx i).socket = (before.handover.ctx i).socket
  pc : (after.conn i).pc = .read side.peer
  sent : ((after.conn i).socket side.peer).tx = ((before.conn i).socket side).rx

end SmbProxy.Interface
