import SmbProxy.Interface.Proxy

/-!
# Frames on a stream that arrives in pieces

A frame is a length, four bytes, most significant first, and a body of that length. One
direction of the proxy loop in passthrough mode takes the bytes of a stream of frames from
`tcp_read` and writes blocks. A schedule says for each poll how much of the rest of the
stream has arrived, 0 for nothing yet; a poll with nothing left of the stream finds
nothing either. The writes succeed.
-/

set_option autoImplicit false

namespace SmbProxy.Interface

open SmbProxy.Library SmbProxy.Model

/-- A frame that fits, with its header, into the ring of `main`. -/
structure Frame where
  body : List UInt8
  length_le : body.length ≤ 0x20004

/-- A frame on the wire. -/
def Frame.bytes (frame : Frame) : List UInt8 := be32Bytes frame.body.length ++ frame.body

/-- The stream of a list of frames. -/
def wire (frames : List Frame) : List UInt8 := (frames.map Frame.bytes).flatten

/-- One direction: its half, what is still to come of the stream, the blocks written to
the peer, and whether the half has left the loop. -/
structure Direction where
  half : Half
  pending : List UInt8
  blocks : List (List UInt8)
  stopped : Bool

/-- A reset ring over any data, and the whole stream to come. -/
def Direction.start (data : ℤ → UInt8) (frames : List Frame) : Direction where
  half := ⟨butilResetRing ⟨0, 0, 0, iobufferSize, data⟩, .psHeader, 4⟩
  pending := wire frames
  blocks := []
  stopped := false

/-- What a poll finds when `n` bytes have arrived. -/
def Direction.offer (d : Direction) (n : ℕ) : ReadEvent :=
  if d.pending.take n = [] then .timeout else .ready (d.pending.take n)

/-- The bytes a poll returns. -/
def Direction.taken (d : Direction) (n : ℕ) : List UInt8 :=
  (tcpRead (d.offer n) d.half.chunk).1

/-- One turn of the half, with its write. -/
def dirStep (d : Direction) (n : ℕ) : Direction :=
  if d.stopped then d
  else
    let s := halfRead (fun _ _ => 0) true d.half (d.offer n)
    let pending := d.pending.drop s.received.length
    match s.next with
    | .done => ⟨s.half, pending, d.blocks, false⟩
    | .write ioptr chunk =>
      ⟨s.half.written chunk, pending, d.blocks ++ [window s.half.ring.data ioptr chunk.toNat], false⟩
    | .leave _ _ => ⟨s.half, pending, d.blocks, true⟩

/-- The direction before the `t`-th poll. -/
def directionAt (data : ℤ → UInt8) (frames : List Frame) (sched : ℕ → ℕ) : ℕ → Direction :=
  runAt dirStep (Direction.start data frames) sched

/-- The schedule delivers the stream: while some of it is to come, some of it arrives. -/
def Delivers (data : ℤ → UInt8) (frames : List Frame) (sched : ℕ → ℕ) : Prop :=
  ∀ t, (directionAt data frames sched t).pending ≠ [] → ∃ t', t ≤ t' ∧ 0 < sched t'

/-- From some poll on, the blocks written are the frames of the stream. -/
def Framed (data : ℤ → UInt8) (frames : List Frame) (sched : ℕ → ℕ) : Prop :=
  ∃ T, ∀ t, T ≤ t → (directionAt data frames sched t).blocks = frames.map Frame.bytes

/-- A poll goes well: if it completes a header, then the four bytes from where this poll
began to write are those at the start of the ring, where the header is; and if no bytes
are wanted, it finds none. -/
structure PollsWell (d : Direction) (n : ℕ) : Prop where
  header : d.half.packetState = .psHeader →
    d.half.ring.count + (d.taken n).length = d.half.packetRemain →
    window (d.half.received (d.taken n)).ring.data d.half.ring.head 4 =
      window (d.half.received (d.taken n)).ring.data 0 4
  body : d.half.packetState ≠ .psHeader → d.half.chunk = 0 → d.pending.take n = []

end SmbProxy.Interface
