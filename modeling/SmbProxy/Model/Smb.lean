import SmbProxy.Library.CInt
import SmbProxy.Library.Loop
import SmbProxy.Library.Memory

/-!
# The packet walkers of `smbproto`

smbproto.c:102-508. A packet is the memory from `pkt` on together with its length:
the bytes behind the length are whatever the ring holds there, and the walkers can
reach them. Both walkers are `do … while` loops over the memory; `fuel` is the number
of passes they are given, and a walk that has not returned by then has no result.

What the walkers read and which handler they call is recorded as a trace. The log
lines, the unused `ctx` and the names of the commands are left out. The header structs
are read in the byte order of a little-endian host.
-/

set_option autoImplicit false

namespace SmbProxy.Model

open SmbProxy.Library

/-- What `pkt` and `bytes` stand for: the memory at `pkt + i`, the string literal `""`
that stands in for a missing parameter block, and the length. -/
structure Packet where
  mem : ℤ → UInt8
  literal : ℤ → UInt8
  bytes : ℤ
  literal_nul : literal 0 = 0
  bytes_nonneg : 0 ≤ bytes
  bytes_lt : bytes < 2 ^ 31

/-- The packet that consists of the given bytes, with zeros behind it. -/
def Packet.ofBytes (bs : List UInt8) (h : bs.length < 2 ^ 31) : Packet where
  mem := store (fun _ => 0) 0 bs
  literal := fun _ => 0
  bytes := bs.length
  literal_nul := rfl
  bytes_nonneg := Int.natCast_nonneg _
  bytes_lt := by omega

/-- The `uint8_t *` values of the walkers. -/
inductive Pointer
  | packet (offset : ℤ)
  | literal (offset : ℤ)
  deriving DecidableEq

/-- Pointer arithmetic. -/
def Pointer.add : Pointer → ℤ → Pointer
  | .packet offset, n => .packet (offset + n)
  | .literal offset, n => .literal (offset + n)

/-- `*p`. -/
def Packet.deref (p : Packet) : Pointer → UInt8
  | .packet offset => p.mem offset
  | .literal offset => p.literal offset

/-- A run of a walker: what it did and, once it has returned, its result. -/
structure Outcome (ε : Type) where
  events : List ε
  result : Option ℤ

/-! ## SMB1 -/

def smbComLockingAndx : UInt8 := 0x24
def smbComOpenAndx : UInt8 := 0x2D
def smbComReadAndx : UInt8 := 0x2E
def smbComWriteAndx : UInt8 := 0x2F
def smbComSessionSetupAndx : UInt8 := 0x73
def smbComLogoffAndx : UInt8 := 0x74
def smbComTreeConnectAndx : UInt8 := 0x75
def smbComNtCreateAndx : UInt8 := 0xA2

/-- `smbproto_is_andx_command`.
SOURCE: smbproto.c:84-100 -/
def smbprotoIsAndxCommand (command : UInt8) : Bool :=
  [smbComLockingAndx, smbComOpenAndx, smbComReadAndx, smbComWriteAndx, smbComSessionSetupAndx,
    smbComLogoffAndx, smbComTreeConnectAndx, smbComNtCreateAndx].contains command

/-- The arguments of one call of `smbproto_handle_v1_command`. -/
structure V1Call where
  command : UInt8
  params : Pointer
  paramBytes : ℤ
  data : Pointer
  dataBytes : ℤ
  deriving DecidableEq

/-- What `smbproto_v1_packet` does: reads of `n` bytes and handler calls. -/
inductive V1Event
  | read (ptr : Pointer) (n : ℤ)
  | call (c : V1Call)
  deriving DecidableEq

/-- The two layouts of a session setup request's parameter block.
SOURCE: smbproto.h:190-211 -/
inductive SetupParams
  | nonext (maxBufferSize maxMpxCount vcNumber sessionKey length1 length2 reserved caps : ℕ)
  | ext (maxBufferSize maxMpxCount vcNumber sessionKey length1 reserved caps : ℕ)
  deriving DecidableEq

/-- `smbproto_session_setup_request`: the block it copies out, and its return value.
The variant is recognised by the length, 22 or 20 bytes.
SOURCE: smbproto.c:129-161 -/
def smbprotoSessionSetupRequest (p : Packet) (params : Pointer) (paramBytes : ℤ) :
    Option SetupParams × ℤ :=
  let block := fun i => p.deref (params.add i)
  if paramBytes = 22 then
    (some (.nonext (le16 block 0) (le16 block 2) (le16 block 4) (le32 block 6) (le16 block 10)
      (le16 block 12) (le32 block 14) (le32 block 18)), 0)
  else if paramBytes = 20 then
    (some (.ext (le16 block 0) (le16 block 2) (le16 block 4) (le32 block 6) (le16 block 10)
      (le32 block 12) (le32 block 16)), 0)
  else (none, -1)

/-- `smbproto_session_setup_response`.
SOURCE: smbproto.c:163-172 -/
def smbprotoSessionSetupResponse : ℤ := 0

/-- `smbproto_handle_v1_command`. Its `result` is set by the session setup handlers
and not returned.
SOURCE: smbproto.c:174-278 -/
def smbprotoHandleV1Command (p : Packet) (isclient : Bool) (c : V1Call) : ℤ :=
  let _result :=
    if c.command = smbComSessionSetupAndx then
      if isclient then (smbprotoSessionSetupRequest p c.params c.paramBytes).2
      else smbprotoSessionSetupResponse
    else 0
  0

/-- The locals of `smbproto_v1_packet` that its loop does not change. -/
structure V1Locals where
  wordCount : ℤ
  byteCount : ℤ
  pktptr : Pointer

/-- The locals of `smbproto_v1_packet` that its loop changes. -/
structure V1State where
  nextCommand : UInt8
  params : Pointer
  deriving DecidableEq

/-- The protocol id of an SMB1 header, `FF 'S' 'M' 'B'`. -/
def smb1Magic : List UInt8 := [0xFF, 0x53, 0x4D, 0x42]

/-- A 32-byte SMB1 header with the given command and zeros elsewhere. -/
def smb1Header (command : UInt8) : List UInt8 := smb1Magic ++ command :: List.replicate 27 0

/-- `smbproto_v1_packet` up to its loop: an early return, or the locals at the loop.
SOURCE: smbproto.c:337-391 -/
def smbprotoV1Enter (p : Packet) : Pass (V1Locals × V1State) V1Event ℤ :=
  if p.bytes < 32 then ⟨[], .inr (-1)⟩
  else
    let hdrz := 32
    let byteCount := toUInt32 p.bytes
    let pktptr := 0
    if window p.mem pktptr 4 ≠ smb1Magic then ⟨[.read (.packet pktptr) hdrz], .inr (-1)⟩
    else
      let command := p.mem (pktptr + 4)
      let pktptr := pktptr + hdrz
      let byteCount := toUInt32 (byteCount - hdrz)
      if byteCount = 0 then
        ⟨[.read (.packet 0) hdrz], .inl (⟨0, 0, .packet pktptr⟩, ⟨command, .literal 0⟩)⟩
      else
        let wordCount : ℤ := (p.mem pktptr).toNat
        let byteCount := toUInt32 (byteCount - 1)
        let params := pktptr + 1
        let pktptr := params + wordCount * 2
        let byteCount := toUInt32 (byteCount - wordCount * 2)
        ⟨[.read (.packet 0) hdrz, .read (.packet 32) 1],
          .inl (⟨wordCount, byteCount, .packet pktptr⟩, ⟨command, .packet params⟩)⟩

/-- The call one pass makes. For an AndX command the four bytes of the AndX header are
skipped, and the length is reduced by one word.
SOURCE: smbproto.c:396-403 -/
def v1Call (l : V1Locals) (s : V1State) : V1Call :=
  if smbprotoIsAndxCommand s.nextCommand then
    ⟨s.nextCommand, s.params.add 4, toInt32 (toUInt32 ((l.wordCount - 1) * 2)), l.pktptr,
      toInt32 l.byteCount⟩
  else
    ⟨s.nextCommand, s.params, toInt32 (toUInt32 (l.wordCount * 2)), l.pktptr,
      toInt32 l.byteCount⟩

/-- `next_offset` of the AndX block at `params`.
SOURCE: smbproto.c:409-411 -/
def v1NextOffset (p : Packet) (params : Pointer) : ℕ :=
  (p.deref (params.add 2)).toNat <<< 8 ||| (p.deref (params.add 3)).toNat

/-- One pass of the AndX loop.
SOURCE: smbproto.c:394-426 -/
def v1Body (p : Packet) (isclient : Bool) (l : V1Locals) (s : V1State) :
    Pass V1State V1Event ℤ :=
  let call := v1Call l s
  let _result := smbprotoHandleV1Command p isclient call
  if smbprotoIsAndxCommand s.nextCommand then
    let nextCommand := p.deref s.params
    let nextOffset := v1NextOffset p s.params
    let events : List V1Event :=
      [.call call, .read s.params 1, .read (s.params.add 2) 1, .read (s.params.add 3) 1]
    if nextCommand ≠ 0xFF then ⟨events, .inl ⟨nextCommand, .packet nextOffset⟩⟩
    else ⟨events, .inr 0⟩
  else ⟨[.call call], .inr 0⟩

/-- `smbproto_v1_packet`, with `fuel` passes of its loop.
SOURCE: smbproto.c:326-429 -/
def smbprotoV1Packet (p : Packet) (isclient : Bool) (fuel : ℕ) : Outcome V1Event :=
  match smbprotoV1Enter p with
  | ⟨events, .inr result⟩ => ⟨events, some result⟩
  | ⟨events, .inl (l, s)⟩ =>
    let walk := loop (v1Body p isclient l) fuel s
    ⟨events ++ walk.events, walk.next.getRight?⟩

/-! ## SMB2 -/

/-- The fields of `struct smb2_header` the walker uses.
SOURCE: smbproto.h:171-188 -/
structure Smb2Header where
  protocolId : List UInt8
  status : ℕ
  command : ℕ
  nextCommand : ℕ
  deriving DecidableEq

/-- `memcpy(&hdr, pktptr, 64)`. -/
def Packet.smb2Header (p : Packet) (pktptr : ℤ) : Smb2Header where
  protocolId := window p.mem pktptr 4
  status := le32 p.mem (pktptr + 8)
  command := le16 p.mem (pktptr + 12)
  nextCommand := le32 p.mem (pktptr + 20)

/-- The protocol id of an SMB2 header, `FE 'S' 'M' 'B'`. -/
def smb2Magic : List UInt8 := [0xFE, 0x53, 0x4D, 0x42]

/-- The arguments of one call of `smbproto_handle_v2_command`, with the offset of the
header that `hdr` is a copy of. `command` is a `uint8_t`. -/
structure V2Call where
  element : ℤ
  command : UInt8
  hdr : Smb2Header
  data : ℤ
  dataBytes : ℤ
  deriving DecidableEq

/-- What `smbproto_v2_packet` does: header copies and handler calls. -/
inductive V2Event
  | read (pktptr : ℤ) (n : ℤ)
  | call (c : V2Call)
  deriving DecidableEq

/-- `smbproto_handle_v2_command` only logs.
SOURCE: smbproto.c:280-324 -/
def smbprotoHandleV2Command (_c : V2Call) : ℤ := 0

/-- The locals of `smbproto_v2_packet` that its loop carries along. -/
structure V2State where
  pktptr : ℤ
  byteCount : ℤ
  deriving DecidableEq

/-- One pass of the compound loop.
SOURCE: smbproto.c:453-485 -/
def v2Body (p : Packet) (s : V2State) : Pass V2State V2Event ℤ :=
  let hdr := p.smb2Header s.pktptr
  let copy : V2Event := .read s.pktptr 64
  if hdr.protocolId ≠ smb2Magic then ⟨[copy], .inr (-1)⟩
  else
    let byteCount := toUInt32 (s.byteCount - 64)
    let call : V2Call :=
      ⟨s.pktptr, UInt8.ofNat hdr.command, hdr, s.pktptr, toInt32 byteCount⟩
    let result := smbprotoHandleV2Command call
    let pktptr := if hdr.nextCommand ≠ 0 then s.pktptr + hdr.nextCommand else s.pktptr
    if result = 0 ∧ hdr.nextCommand ≠ 0 then ⟨[copy, .call call], .inl ⟨pktptr, byteCount⟩⟩
    else ⟨[copy, .call call], .inr 0⟩

/-- `smbproto_v2_packet`, with `fuel` passes of its loop.
SOURCE: smbproto.c:432-489 -/
def smbprotoV2Packet (p : Packet) (fuel : ℕ) : Outcome V2Event :=
  if p.bytes < 64 then ⟨[], some (-1)⟩
  else
    let walk := loop (v2Body p) fuel ⟨0, toUInt32 p.bytes⟩
    ⟨walk.events, walk.next.getRight?⟩

/-! ## Either protocol -/

/-- What either walker does. -/
inductive SmbEvent
  | v1 (e : V1Event)
  | v2 (e : V2Event)
  deriving DecidableEq

/-- `smbproto_packet`.
SOURCE: smbproto.c:491-508 -/
def smbprotoPacket (p : Packet) (isclient : Bool) (fuel : ℕ) : Outcome SmbEvent :=
  if p.bytes < 1 then ⟨[], some (-1)⟩
  else if p.mem 0 = 0xFF then
    let run := smbprotoV1Packet p isclient fuel
    ⟨run.events.map .v1, run.result⟩
  else
    let run := smbprotoV2Packet p fuel
    ⟨run.events.map .v2, run.result⟩

end SmbProxy.Model
