import SmbProxy.Library.CInt
import SmbProxy.Library.Machine
import SmbProxy.Model.Ring
import SmbProxy.Model.Tcp
import Mathlib.Logic.Function.Basic

/-!
# The proxy loop of `smbgw_thread`

smbgw.c:44-345. A worker serves one connection after the other. For each it runs the
proxy loop, whose body has a client half and a server half. A half reads from its socket
up to what is missing of the current header or message, and writes a complete message to
the other socket.

`step` is the worker as a machine. An input is what the environment does next: a client
for the idle worker, the outcome of the `tcp_read` a half is at, or of one pass of the
`tcp_write` loop it is in. `packet` stands in for `smbproto_packet`, with `isclient`, the
memory at the packet and its length. What has passed through the sockets and what
`packet` has said is kept in logs that the code never reads. Log lines, sleeping and a
`tcp_connect` that fails are left out.
-/

set_option autoImplicit false

namespace SmbProxy.Model

open SmbProxy.Library

/-! ## One half of the loop body -/

/-- SOURCE: smbgw.c:52 -/
inductive PacketState
  | psHeader
  | psBody
  | psPacket
  deriving DecidableEq

/-- What one half works on: the ring of its socket, and its two local variables. -/
structure Half where
  ring : Ioring
  packetState : PacketState
  packetRemain : ℤ

/-- The places where a half leaves the loop with `break`. -/
inductive Break
  | internalError
  | readFailed
  | invalidHeader
  | rejected
  | writeFailed
  deriving DecidableEq

/-- Where a half is after its read: at its end, in `tcp_write` of the `chunk` bytes at
`ioptr`, or out of the loop with a `result` that is not 0. -/
inductive HalfNext
  | done
  | write (ioptr chunk : ℤ)
  | leave (why : Break) (result : ℤ)
  deriving DecidableEq

/-- What a half does up to its write: its new state, the bytes received, the block on
which `packet` was called with the verdict, and where it is then. -/
structure HalfStep where
  half : Half
  received : List UInt8
  judged : Option (List UInt8 × ℤ)
  next : HalfNext

/-- The bytes a half still wants. -/
def Half.chunk (half : Half) : ℤ := half.packetRemain - half.ring.count

/-- Bytes read at the write pointer are counted in.
SOURCE: smbgw.c:120-125, smbgw.c:231-236 -/
def Half.received (half : Half) (bytes : List UInt8) : Half :=
  { half with ring := ringProduce half.ring bytes }

/-- The header is complete: the length of the message is read at `ioptr`.
SOURCE: smbgw.c:138-157, smbgw.c:249-268 -/
def halfHeader (half : Half) (ioptr : ℤ) (received : List UInt8) : HalfStep :=
  let packetHeader := be32 half.ring.data ioptr
  if packetHeader > 0x1FFFFF then ⟨half, received, none, .leave .invalidHeader (-1)⟩
  else
    ⟨{ half with packetState := .psBody, packetRemain := packetHeader + 4 }, received, none,
      .done⟩

/-- The message is complete: it is made contiguous, judged unless in passthrough mode, and
then written together with its header.
SOURCE: smbgw.c:158-212, smbgw.c:269-323 -/
def halfBody (packet : (ℤ → UInt8) → ℤ → ℤ) (passthrough : Bool) (half : Half)
    (received : List UInt8) : HalfStep :=
  let ring := butilNormalizeRing half.ring none
  let region := butilRingContiguousReadPtr ring
  let chunk := region.bytes - 4
  let ioptr := region.ptr + 4
  let result := if passthrough then 0 else packet (fun i => ring.data (ioptr + i)) chunk
  let judged :=
    if passthrough then none else some (window ring.data region.ptr region.bytes.toNat, result)
  if result ≠ 0 then ⟨{ half with ring := ring }, received, judged, .leave .rejected result⟩
  else
    let half : Half := ⟨ring, .psHeader, 4⟩
    let region := butilRingContiguousReadPtr ring
    if region.bytes > 0 then ⟨half, received, judged, .write region.ptr region.bytes⟩
    else ⟨half, received, judged, .done⟩

/-- One half of the loop body up to `tcp_write`. `ioptr` is the write pointer from before
the read.
SOURCE: smbgw.c:104-213, smbgw.c:215-324 -/
def halfRead (packet : (ℤ → UInt8) → ℤ → ℤ) (passthrough : Bool) (half : Half)
    (event : ReadEvent) : HalfStep :=
  let region := butilRingContiguousWritePtr half.ring
  let ioptr := region.ptr
  let room := region.bytes
  let chunk := half.chunk
  if room < chunk then ⟨half, [], none, .leave .internalError (-1)⟩
  else
    let (bytes, result) := tcpRead event chunk
    let half := if result > 0 then half.received bytes else half
    let result := if result > 0 then 0 else result
    if result ≠ 0 then ⟨half, bytes, none, .leave .readFailed result⟩
    else if half.ring.count = half.packetRemain then
      if half.packetState = .psHeader then halfHeader half ioptr bytes
      else halfBody packet passthrough half bytes
    else ⟨half, bytes, none, .done⟩

/-- `smbgw_client_packet`.
SOURCE: smbgw.c:34-37 -/
def smbgwClientPacket (packet : Bool → (ℤ → UInt8) → ℤ → ℤ) : (ℤ → UInt8) → ℤ → ℤ :=
  packet true

/-- `smbgw_server_packet`.
SOURCE: smbgw.c:39-42 -/
def smbgwServerPacket (packet : Bool → (ℤ → UInt8) → ℤ → ℤ) : (ℤ → UInt8) → ℤ → ℤ :=
  packet false

/-- The client half.
SOURCE: smbgw.c:104-213 -/
def clientHalf (packet : Bool → (ℤ → UInt8) → ℤ → ℤ) : Bool → Half → ReadEvent → HalfStep :=
  halfRead (smbgwClientPacket packet)

/-- The server half.
SOURCE: smbgw.c:215-324 -/
def serverHalf (packet : Bool → (ℤ → UInt8) → ℤ → ℤ) : Bool → Half → ReadEvent → HalfStep :=
  halfRead (smbgwServerPacket packet)

/-- After `tcp_write` has returned `result >= 0`.
SOURCE: smbgw.c:187-204, smbgw.c:298-315 -/
def Half.written (half : Half) (result : ℤ) : Half :=
  { half with ring := ringConsume half.ring result }

/-- Where a half is after a pass of `tcp_write`. -/
inductive WriteNext
  | more (sent : ℤ)
  | done
  | leave (result : ℤ)
  deriving DecidableEq

/-- What a half does in a pass of `tcp_write`: its new state, the bytes accepted, and where
it is then. -/
structure WriteStep where
  half : Half
  sent : List UInt8
  next : WriteNext

/-- A pass of `tcp_write`, and what follows when it returns.
SOURCE: smbgw.c:186-210, smbgw.c:297-321 -/
def halfWrite (half : Half) (ioptr chunk sent : ℤ) (event : WriteEvent) : WriteStep :=
  let pass := tcpWriteBody (fun i => half.ring.data (ioptr + i)) chunk sent event
  match pass.next with
  | .inl sent => ⟨half, pass.events, .more sent⟩
  | .inr result =>
    if result ≥ 0 then ⟨half.written result, pass.events, .done⟩
    else ⟨half, pass.events, .leave result⟩

/-! ## The worker -/

/-- The two sockets of a connection, each with the half that reads from it. -/
inductive Side
  | client
  | server
  deriving DecidableEq

/-- The socket a half writes to, and the half that comes next. -/
def Side.peer : Side → Side
  | .client => .server
  | .server => .client

/-- What `recv` has returned from a socket and what `send` has accepted on it. -/
structure Socket where
  rx : List UInt8
  tx : List UInt8

/-- Why the last connection ended: the half, the place of the `break`, and `result`. -/
structure Ending where
  side : Side
  why : Break
  result : ℤ
  deriving DecidableEq

/-- Where the worker is: at the start of a half, in `tcp_write` with `sent` bytes sent, or
without a connection. -/
inductive Pc
  | read (side : Side)
  | write (side : Side) (ioptr chunk sent : ℤ)
  | idle (last : Option Ending)
  deriving DecidableEq

/-- A worker with its context. `judged` lists, for each half, the blocks on which `packet`
was called. -/
structure Conn where
  passthrough : Bool
  half : Side → Half
  socket : Side → Socket
  judged : Side → List (List UInt8 × ℤ)
  pc : Pc

/-- `iobuffer_size`, what `main` has the rings allocated with.
SOURCE: main.cc:45 -/
def iobufferSize : ℤ := 0x20008

/-- A worker that has had no connection yet.
SOURCE: smbgw.c:375-400 -/
def Conn.init (size : ℤ) (data : Side → ℤ → UInt8) : Conn where
  passthrough := false
  half := fun side => ⟨butilResetRing ⟨0, 0, 0, size, data side⟩, .psHeader, 4⟩
  socket := fun _ => ⟨[], []⟩
  judged := fun _ => []
  pc := .idle none

/-- `smbgw_proxy_start` hands a client to an idle worker, which sets its variables and
enters the loop. The data of the rings stays.
SOURCE: smbgw.c:456-460, smbgw.c:96-102 -/
def Conn.start (c : Conn) (passthrough : Bool) : Conn where
  passthrough := passthrough
  half := fun side => ⟨butilResetRing (c.half side).ring, .psHeader, 4⟩
  socket := fun _ => ⟨[], []⟩
  judged := fun _ => []
  pc := .read .client

/-- The half that reads from a socket. -/
def sideHalf (packet : Bool → (ℤ → UInt8) → ℤ → ℤ) : Side → Bool → Half → ReadEvent → HalfStep
  | .client => clientHalf packet
  | .server => serverHalf packet

/-- Where the worker is after the read of a half. At the end of a half the other one
follows: behind the server half `result` is 0 and the loop goes round. -/
def pcAfter (side : Side) : HalfNext → Pc
  | .done => .read side.peer
  | .write ioptr chunk => .write side ioptr chunk 0
  | .leave why result => .idle (some ⟨side, why, result⟩)

/-- A half up to its write. -/
def Conn.readStep (packet : Bool → (ℤ → UInt8) → ℤ → ℤ) (c : Conn) (side : Side)
    (event : ReadEvent) : Conn :=
  let s := sideHalf packet side c.passthrough (c.half side) event
  { c with
    half := Function.update c.half side s.half
    socket := Function.update c.socket side
      { c.socket side with rx := (c.socket side).rx ++ s.received }
    judged := Function.update c.judged side (c.judged side ++ s.judged.toList)
    pc := pcAfter side s.next }

/-- Where the worker is after a pass of `tcp_write`. -/
def pcAfterWrite (side : Side) (ioptr chunk : ℤ) : WriteNext → Pc
  | .more sent => .write side ioptr chunk sent
  | .done => .read side.peer
  | .leave result => .idle (some ⟨side, .writeFailed, result⟩)

/-- A pass of `tcp_write` of a half. -/
def Conn.writeStep (c : Conn) (side : Side) (ioptr chunk sent : ℤ) (event : WriteEvent) : Conn :=
  let s := halfWrite (c.half side) ioptr chunk sent event
  { c with
    half := Function.update c.half side s.half
    socket := Function.update c.socket side.peer
      { c.socket side.peer with tx := (c.socket side.peer).tx ++ s.sent }
    pc := pcAfterWrite side ioptr chunk s.next }

/-- What the environment does next. -/
inductive Input
  | start (passthrough : Bool)
  | read (event : ReadEvent)
  | write (event : WriteEvent)
  deriving DecidableEq

/-- One step of the worker. An input it does not wait for changes nothing. -/
def step (packet : Bool → (ℤ → UInt8) → ℤ → ℤ) (c : Conn) : Input → Conn
  | .start passthrough =>
    match c.pc with
    | .idle _ => c.start passthrough
    | _ => c
  | .read event =>
    match c.pc with
    | .read side => c.readStep packet side event
    | _ => c
  | .write event =>
    match c.pc with
    | .write side ioptr chunk sent => c.writeStep side ioptr chunk sent event
    | _ => c

end SmbProxy.Model
