import SmbProxy.Analysis.HalfRead
import SmbProxy.Interface.Framing

/-!
# When the blocks written are the frames received

The length of a frame is read from where the read began that completed its header, not
from the start of the ring; and a half that wants no bytes, behind the header of an empty
frame, takes data that is there for the end of the stream. `PollsWell` excludes the two.

While all polls go well, the direction is in step with the stream (`Sound`), and it gets
on with every poll that finds something (`sound_poll`). A poll that does not go well ends
that for good: the half has left the loop or waits for a block of another length (`Stuck`).
So the frames come out as they went in iff every poll goes well (`framed_iff`).
-/

set_option autoImplicit false

namespace SmbProxy.Analysis

open SmbProxy.Library SmbProxy.Model SmbProxy.Interface

/-! ## The turns of a direction -/

section Turns

variable {d : Direction} {n : ℕ} {half : Half} {bytes : List UInt8}

/-- A direction that has stopped stays as it is. -/
theorem dirStep_of_stopped (h : d.stopped = true) (n : ℕ) : dirStep d n = d := by
  unfold dirStep
  rw [if_pos h]

/-- A read that leads nowhere takes its bytes from the stream. -/
theorem dirStep_of_done (h : d.stopped = false)
    (hread : halfRead (fun _ _ => 0) true d.half (d.offer n) = ⟨half, bytes, none, .done⟩) :
    dirStep d n = ⟨half, d.pending.drop bytes.length, d.blocks, false⟩ := by
  unfold dirStep
  rw [if_neg (by simp [h]), hread]

/-- A read that leaves the loop stops the direction. -/
theorem dirStep_of_leave (h : d.stopped = false) {why : Break} {result : ℤ}
    (hread : halfRead (fun _ _ => 0) true d.half (d.offer n) =
      ⟨half, bytes, none, .leave why result⟩) :
    dirStep d n = ⟨half, d.pending.drop bytes.length, d.blocks, true⟩ := by
  unfold dirStep
  rw [if_neg (by simp [h]), hread]

/-- A read that leads to a write is followed by the whole write, which adds a block and empties the
ring. -/
theorem dirStep_of_write (h : d.stopped = false) (hring : half.ring.AtStart)
    (hread : halfRead (fun _ _ => 0) true d.half (d.offer n) =
      ⟨half, bytes, none, .write 0 half.ring.count⟩) :
    dirStep d n = ⟨{ half with ring := butilResetRing half.ring }, d.pending.drop bytes.length,
      d.blocks ++ [half.ring.contents], false⟩ := by
  unfold dirStep
  rw [if_neg (by simp [h]), hread]
  dsimp only
  rw [Half.written, ringConsume_atStart, contents_of_atStart hring]

/-- Blocks are only added. -/
theorem dirStep_blocks (d : Direction) (n : ℕ) :
    ∃ more, (dirStep d n).blocks = d.blocks ++ more := by
  unfold dirStep
  by_cases h : d.stopped = true
  · rw [if_pos h]
    exact ⟨[], (List.append_nil _).symm⟩
  · rw [if_neg h]
    cases hnext : (halfRead (fun _ _ => 0) true d.half (d.offer n)).next with
    | done =>
        simp only [hnext]
        exact ⟨[], (List.append_nil _).symm⟩
    | write ioptr chunk =>
        simp only [hnext]
        exact ⟨_, rfl⟩
    | leave why result =>
        simp only [hnext]
        exact ⟨[], (List.append_nil _).symm⟩

end Turns

/-- What a poll returns: an error when data is there and none is wanted, and otherwise
some of the bytes to come, none only if none have arrived. -/
theorem offer_cases {d : Direction} (h : d.half.Waiting) (hsmall : d.half.chunk < 2 ^ 64) (n : ℕ) :
    (d.pending.take n ≠ [] ∧ d.half.chunk = 0 ∧
        tcpRead (d.offer n) d.half.chunk = ([], -1)) ∨
      ∃ bytes : List UInt8, bytes <+: d.pending ∧ (bytes = [] ↔ d.pending.take n = []) ∧
        d.half.ring.count + bytes.length ≤ d.half.packetRemain ∧
        tcpRead (d.offer n) d.half.chunk = (bytes, (bytes.length : ℤ)) := by
  have hcount := h.count_le
  have hchunk : d.half.chunk = d.half.packetRemain - d.half.ring.count := rfl
  unfold Direction.offer
  by_cases hnone : d.pending.take n = []
  · rw [if_pos hnone]
    exact Or.inr ⟨[], List.nil_prefix, by simp [hnone], by simpa using hcount, rfl⟩
  · rw [if_neg hnone]
    unfold tcpRead
    dsimp only
    by_cases hrc : ((d.pending.take n).take (sizeT d.half.chunk)).length = 0
    · rw [if_pos hrc]
      have hzero : sizeT d.half.chunk = 0 := by
        rw [List.length_take] at hrc
        have hpos : 0 < (d.pending.take n).length := List.length_pos_iff.mpr hnone
        omega
      unfold sizeT at hzero
      exact Or.inl ⟨hnone, by omega, rfl⟩
    · rw [if_neg hrc]
      have hsize := @sizeT_le d.half.chunk (by omega)
      have hlen := List.length_take_le (sizeT d.half.chunk) (d.pending.take n)
      refine Or.inr ⟨_, (List.take_prefix _ _).trans (List.take_prefix _ _), ?_, by omega, rfl⟩
      constructor
      · intro hnil
        rw [hnil] at hrc
        exact absurd rfl hrc
      · intro hnil
        exact absurd hnil hnone

/-! ## In step with the stream -/

/-- The stream of frames begins with the length of the first one. -/
theorem wire_cons (frame : Frame) (frames : List Frame) :
    wire (frame :: frames) = be32Bytes frame.body.length ++ (frame.body ++ wire frames) := by
  simp [wire, Frame.bytes]

/-- A frame has four bytes more than its body. -/
theorem frame_bytes_length (frame : Frame) : frame.bytes.length = frame.body.length + 4 := by
  unfold Frame.bytes
  rw [List.length_append]
  exact Nat.add_comm 4 _

/-- The frames `done` have been written, those of `rest` are in the ring and to come. -/
structure Sound (done rest : List Frame) (d : Direction) : Prop where
  running : d.stopped = false
  waiting : d.half.Waiting
  size : d.half.ring.size = iobufferSize
  blocks : d.blocks = done.map Frame.bytes
  stream : d.half.ring.contents ++ d.pending = wire rest
  header : d.half.packetState = .psHeader → d.half.ring.count < 4
  body : d.half.packetState ≠ .psHeader → ∃ frame tail, rest = frame :: tail ∧
    d.half.packetRemain = frame.body.length + 4

/-- Between two frames the ring is empty, and the rest of the stream is that of the frames to come.
-/
theorem sound_reset {ring : Ioring} (hsize : ring.size = iobufferSize) (done rest : List Frame) :
    Sound done rest
      ⟨⟨butilResetRing ring, .psHeader, 4⟩, wire rest, done.map Frame.bytes, false⟩ where
  running := rfl
  waiting := waiting_reset (by rw [hsize, iobufferSize]; omega)
  size := hsize
  blocks := rfl
  stream := by
    show (butilResetRing ring).contents ++ wire rest = wire rest
    rw [(butilResetRing_spec (by rw [hsize, iobufferSize]; omega)).2, List.nil_append]
  header _ := by
    show (0 : ℤ) < 4
    omega
  body hne := absurd rfl hne

/-- A direction is sound when it starts. -/
theorem sound_start (data : ℤ → UInt8) (frames : List Frame) :
    Sound [] frames (Direction.start data frames) :=
  sound_reset rfl [] frames

section Sound

variable {done rest : List Frame} {d : Direction}

/-- What the half waits for fits into the ring, and what it asks for into a `size_t`. -/
theorem sound_room (h : Sound done rest d) :
    d.half.packetRemain ≤ d.half.ring.size ∧ d.half.chunk < 2 ^ 64 := by
  have hsize : d.half.ring.size = 0x20008 := h.size
  have hcount := h.waiting.ring.count_nonneg
  have hchunk : d.half.chunk = d.half.packetRemain - d.half.ring.count := rfl
  by_cases hstate : d.half.packetState = .psHeader
  · have := h.waiting.header hstate
    omega
  · obtain ⟨frame, tail, -, hremain⟩ := h.body hstate
    have := frame.length_le
    omega

/-- With the bytes of a read in the ring, ring and rest of the stream are still the frames to come.
-/
theorem sound_stream (h : Sound done rest d) {bytes : List UInt8} (hbytes : bytes <+: d.pending)
    (hfit : d.half.ring.count + bytes.length ≤ d.half.packetRemain) :
    (d.half.received bytes).ring.contents ++ d.pending.drop bytes.length = wire rest := by
  obtain ⟨later, hlater⟩ := hbytes
  rw [(received_atStart h.waiting (sound_room h).1 hfit).2, ← h.stream, ← hlater,
    List.drop_left, List.append_assoc]

/-- Four bytes from the start of the ring are the length of the next frame, when the header is
complete. -/
theorem sound_header (h : Sound done rest d) {bytes : List UInt8} (hbytes : bytes <+: d.pending)
    (hfull : d.half.ring.count + bytes.length = d.half.packetRemain)
    (hstate : d.half.packetState = .psHeader) :
    ∃ frame tail, rest = frame :: tail ∧
      be32 (d.half.received bytes).ring.data 0 = frame.body.length := by
  have hremain := h.waiting.header hstate
  have hstream := sound_stream h hbytes hfull.le
  have hring := (received_atStart h.waiting (sound_room h).1 hfull.le).1
  have hcount : (d.half.received bytes).ring.count = 4 := calc
    d.half.ring.count + bytes.length = d.half.packetRemain := hfull
    _ = 4 := hremain
  have hcontents : (d.half.received bytes).ring.contents =
      window (d.half.received bytes).ring.data 0 4 := by
    rw [contents_of_atStart hring, hcount]
    rfl
  rw [hcontents] at hstream
  cases rest with
  | nil =>
      have hlength := congrArg List.length hstream
      rw [List.length_append, window_length] at hlength
      simp [wire] at hlength
  | cons frame tail =>
      rw [wire_cons] at hstream
      have hwindow := (List.append_inj hstream (by rw [window_length]; rfl)).1
      have := frame.length_le
      exact ⟨frame, tail, rfl, be32_of_window (by omega) hwindow⟩

/-- A complete message is the next frame. -/
theorem sound_frame (h : Sound done rest d) {bytes : List UInt8} (hbytes : bytes <+: d.pending)
    (hfull : d.half.ring.count + bytes.length = d.half.packetRemain)
    (hstate : d.half.packetState ≠ .psHeader) :
    ∃ frame tail, rest = frame :: tail ∧ (d.half.received bytes).ring.contents = frame.bytes ∧
      d.pending.drop bytes.length = wire tail := by
  obtain ⟨frame, tail, rfl, hremain⟩ := h.body hstate
  have hstream := sound_stream h hbytes hfull.le
  have hring := (received_atStart h.waiting (sound_room h).1 hfull.le).1
  have hcount : (d.half.received bytes).ring.count = frame.body.length + 4 := calc
    d.half.ring.count + bytes.length = d.half.packetRemain := hfull
    _ = frame.body.length + 4 := hremain
  have hlength := contents_length hring
  have hsplit : wire (frame :: tail) = frame.bytes ++ wire tail := by simp [wire]
  rw [hsplit] at hstream
  obtain ⟨hcontents, hpending⟩ := List.append_inj hstream (by rw [frame_bytes_length]; omega)
  exact ⟨frame, tail, rfl, hcontents, hpending⟩

/-- What a poll does while the direction is in step. -/
inductive Turn (done rest : List Frame) (d : Direction) (n : ℕ) : Prop
  /-- No bytes are wanted and some are there. -/
  | failed : d.half.packetState ≠ .psHeader → d.half.chunk = 0 → d.pending.take n ≠ [] →
      dirStep d n = ⟨d.half, d.pending, d.blocks, true⟩ → Turn done rest d n
  | more (bytes : List UInt8) : bytes <+: d.pending → (bytes = [] ↔ d.pending.take n = []) →
      d.taken n = bytes → d.half.ring.count + bytes.length < d.half.packetRemain →
      dirStep d n = ⟨d.half.received bytes, d.pending.drop bytes.length, d.blocks, false⟩ →
      Turn done rest d n
  | header (bytes : List UInt8) (frame : Frame) (tail : List Frame) : bytes <+: d.pending →
      d.taken n = bytes → d.half.ring.count + bytes.length = d.half.packetRemain →
      d.half.packetState = .psHeader → rest = frame :: tail →
      be32 (d.half.received bytes).ring.data 0 = frame.body.length →
      dirStep d n =
        (if 0x1FFFFF < d.half.headerWord bytes then
          ⟨d.half.received bytes, d.pending.drop bytes.length, d.blocks, true⟩
        else
          ⟨⟨(d.half.received bytes).ring, .psBody, d.half.headerWord bytes + 4⟩,
            d.pending.drop bytes.length, d.blocks, false⟩) → Turn done rest d n
  | frame (bytes : List UInt8) (frame : Frame) (tail : List Frame) : bytes <+: d.pending →
      (bytes = [] ↔ d.pending.take n = []) →
      d.half.ring.count + bytes.length = d.half.packetRemain →
      d.half.packetState ≠ .psHeader → rest = frame :: tail →
      d.pending.drop bytes.length = wire tail →
      dirStep d n = ⟨⟨butilResetRing (d.half.received bytes).ring, .psHeader, 4⟩, wire tail,
        d.blocks ++ [frame.bytes], false⟩ → Turn done rest d n

/-- A turn of a sound direction is of one of the kinds of `Turn`. -/
theorem sound_turn (h : Sound done rest d) (n : ℕ) : Turn done rest d n := by
  obtain ⟨hroom, hsmall⟩ := sound_room h
  have hring := h.waiting.ring
  rcases offer_cases h.waiting hsmall n with
    ⟨hsome, hchunk, hread⟩ | ⟨bytes, hbytes, hnone, hfit, hread⟩
  · have hstate : d.half.packetState ≠ .psHeader := by
      intro hstate
      have hremain := h.waiting.header hstate
      have hcount := h.header hstate
      unfold Half.chunk at hchunk
      omega
    have hfailed := @halfRead_of_failed (fun _ _ => 0) true _ hring hroom _ hread
    exact .failed hstate hchunk hsome (dirStep_of_leave h.running hfailed)
  have htaken : d.taken n = bytes := by
    unfold Direction.taken
    rw [hread]
  obtain ⟨hring', -⟩ := received_atStart h.waiting hroom hfit
  have heq := @halfRead_of_read (fun _ _ => 0) true _ hring hroom _ _ hread
  by_cases hfull : d.half.ring.count + bytes.length = d.half.packetRemain
  · rw [if_pos hfull] at heq
    by_cases hstate : d.half.packetState = .psHeader
    · obtain ⟨frame, tail, hrest, hlength⟩ := sound_header h hbytes hfull hstate
      rw [if_pos hstate] at heq
      refine .header bytes frame tail hbytes htaken hfull hstate hrest hlength ?_
      by_cases hgt : 0x1FFFFF < d.half.headerWord bytes
      · rw [if_pos hgt]
        rw [halfHeader_of_gt hgt] at heq
        exact dirStep_of_leave h.running heq
      · rw [if_neg hgt]
        rw [halfHeader_of_le (not_lt.mp hgt)] at heq
        exact dirStep_of_done h.running heq
    · obtain ⟨frame, tail, hrest, hcontents, hpending⟩ := sound_frame h hbytes hfull hstate
      have hpos : 0 < (d.half.received bytes).ring.count := by
        have hcount : (d.half.received bytes).ring.count = d.half.packetRemain := hfull
        have := h.waiting.body hstate
        omega
      have hverdict : halfVerdict (fun _ _ => 0) true (d.half.received bytes) = 0 := rfl
      rw [if_neg hstate, halfBody_eq hring' hpos, if_neg (not_not.mpr hverdict)] at heq
      refine .frame bytes frame tail hbytes hnone hfull hstate hrest hpending ?_
      rw [@dirStep_of_write d n ⟨(d.half.received bytes).ring, .psHeader, 4⟩ bytes h.running hring'
        heq, hcontents, hpending]
  · rw [if_neg hfull] at heq
    exact .more bytes hbytes hnone htaken (by omega) (dirStep_of_done h.running heq)

/-! ## Polls that go well -/

/-- A direction that has got some of what it waits for is sound. -/
theorem sound_more (h : Sound done rest d) {bytes : List UInt8} (hbytes : bytes <+: d.pending)
    (hmore : d.half.ring.count + bytes.length < d.half.packetRemain) :
    Sound done rest ⟨d.half.received bytes, d.pending.drop bytes.length, d.blocks, false⟩ where
  running := rfl
  waiting := waiting_received h.waiting (sound_room h).1 hmore.le
  size := h.size
  blocks := h.blocks
  stream := sound_stream h hbytes hmore.le
  header hstate := by
    rw [h.waiting.header hstate] at hmore
    exact hmore
  body := h.body

/-- A direction that has read the length of the next frame right is sound. -/
theorem sound_headed {frame : Frame} {tail : List Frame} (h : Sound done (frame :: tail) d)
    {bytes : List UInt8} (hbytes : bytes <+: d.pending)
    (hfull : d.half.ring.count + bytes.length = d.half.packetRemain)
    (hstate : d.half.packetState = .psHeader) :
    Sound done (frame :: tail)
      ⟨⟨(d.half.received bytes).ring, .psBody, frame.body.length + 4⟩,
        d.pending.drop bytes.length, d.blocks, false⟩ where
  running := rfl
  waiting := waiting_headed h.waiting (sound_room h).1 hfull hstate frame.body.length
  size := h.size
  blocks := h.blocks
  stream := sound_stream h hbytes hfull.le
  header hne := by cases hne
  body _ := ⟨frame, tail, rfl, rfl⟩

/-- A direction that has written the next frame is sound, for the frames behind it. -/
theorem sound_written {frame : Frame} {tail : List Frame} (h : Sound done (frame :: tail) d)
    (bytes : List UInt8) :
    Sound (done ++ [frame]) tail
      ⟨⟨butilResetRing (d.half.received bytes).ring, .psHeader, 4⟩, wire tail,
        d.blocks ++ [frame.bytes], false⟩ := by
  have hblocks : d.blocks ++ [frame.bytes] = (done ++ [frame]).map Frame.bytes := by
    rw [h.blocks, List.map_append]
    rfl
  have hsize : (d.half.received bytes).ring.size = iobufferSize := h.size
  rw [hblocks]
  exact sound_reset hsize (done ++ [frame]) tail

/-- When all is received and a frame is still to be written, it is in the ring. -/
theorem sound_exhausted (h : Sound done rest d) (hpending : d.pending = []) (hrest : rest ≠ []) :
    d.half.packetRemain ≤ d.half.ring.count := by
  obtain ⟨first, others, rfl⟩ := List.exists_cons_of_ne_nil hrest
  have hstream := h.stream
  rw [hpending, List.append_nil, wire_cons] at hstream
  have hlength := congrArg List.length hstream
  rw [List.length_append, List.length_append, be32Bytes_length] at hlength
  have hcount := contents_length h.waiting.ring
  by_cases hstate : d.half.packetState = .psHeader
  · have := h.waiting.header hstate
    omega
  · obtain ⟨frame, tail, hframe, hremain⟩ := h.body hstate
    obtain ⟨rfl, -⟩ := List.cons.inj hframe
    omega

/-- A poll that goes well keeps the direction in step. Nothing comes back, and something
is done if some bytes have arrived or all have been received. -/
theorem sound_poll (h : Sound done rest d) {n : ℕ} (hwell : PollsWell d n) :
    ∃ done' rest', done' ++ rest' = done ++ rest ∧ Sound done' rest' (dirStep d n) ∧
      (dirStep d n).pending.length + rest'.length ≤ d.pending.length + rest.length ∧
      (rest ≠ [] → 0 < n ∨ d.pending = [] →
        (dirStep d n).pending.length + rest'.length < d.pending.length + rest.length) := by
  cases sound_turn h n with
  | failed hstate hchunk hsome hstep => exact absurd (hwell.body hstate hchunk) hsome
  | more bytes hbytes hnone htaken hmore hstep =>
      have hsound := sound_more h hbytes hmore
      rw [hstep]
      have hdrop : (d.pending.drop bytes.length).length = d.pending.length - bytes.length :=
        List.length_drop
      refine ⟨done, rest, rfl, hsound, by rw [hdrop]; omega, fun hrest hprogress => ?_⟩
      by_cases hnil : bytes = []
      · have hnone' := hnone.mp hnil
        have hpending : d.pending = [] := by
          cases hprogress with
          | inl hpos =>
              rw [List.take_eq_nil_iff] at hnone'
              exact hnone'.resolve_left (by omega)
          | inr hpending => exact hpending
        have := sound_exhausted h hpending hrest
        omega
      · have hpos := List.length_pos_iff.mpr hnil
        have hle := hbytes.length_le
        rw [hdrop]
        omega
  | header bytes frame tail hbytes htaken hfull hstate hrest hlength hstep =>
      subst hrest
      have hwindow := hwell.header hstate (by rw [htaken]; exact hfull)
      rw [htaken] at hwindow
      have hword : d.half.headerWord bytes = frame.body.length := by
        rw [← hlength]
        exact be32_eq_of_window_eq hwindow
      have hframe := frame.length_le
      rw [if_neg (by omega), hword] at hstep
      rw [hstep]
      have hcount := h.header hstate
      have hremain := h.waiting.header hstate
      have hle := hbytes.length_le
      have hdrop : (d.pending.drop bytes.length).length = d.pending.length - bytes.length :=
        List.length_drop
      exact ⟨done, frame :: tail, rfl, sound_headed h hbytes hfull hstate, by rw [hdrop]; omega,
        fun _ _ => by rw [hdrop]; omega⟩
  | frame bytes frame tail hbytes hnone hfull hstate hrest hpending hstep =>
      subst hrest
      rw [hstep]
      have hle : (wire tail).length ≤ d.pending.length := by
        rw [← hpending]
        exact (List.drop_suffix _ _).length_le
      refine ⟨done ++ [frame], tail, by simp, sound_written h bytes, ?_, fun _ _ => ?_⟩
      · show (wire tail).length + tail.length ≤ d.pending.length + (tail.length + 1)
        omega
      · show (wire tail).length + tail.length < d.pending.length + (tail.length + 1)
        omega

end Sound

/-! ## Out of step for good -/

section Stuck

variable {done rest : List Frame} {frame : Frame} {d : Direction}

/-- The next block is not to be the next frame: the half has left the loop, waits for a
block of another length, or has written one. -/
inductive Stuck (done : List Frame) (frame : Frame) (d : Direction) : Prop
  | stopped : d.stopped = true → d.blocks = done.map Frame.bytes → Stuck done frame d
  | misled : d.half.Waiting → d.half.packetState ≠ .psHeader →
      d.half.packetRemain ≠ frame.body.length + 4 → d.blocks = done.map Frame.bytes →
      Stuck done frame d
  | wrong (block : List UInt8) (more : List (List UInt8)) :
      block.length ≠ frame.body.length + 4 →
      d.blocks = done.map Frame.bytes ++ block :: more → Stuck done frame d

/-- A direction that is stuck has not all frames as its blocks. -/
theorem stuck_blocks (h : Stuck done frame d) (tail : List Frame) :
    d.blocks ≠ (done ++ frame :: tail).map Frame.bytes := by
  intro heq
  rw [List.map_append, List.map_cons] at heq
  cases h with
  | stopped hstopped hblocks =>
      rw [hblocks, List.self_eq_append_right] at heq
      cases heq
  | misled hwaiting hstate hremain hblocks =>
      rw [hblocks, List.self_eq_append_right] at heq
      cases heq
  | wrong block more hlength hblocks =>
      rw [hblocks] at heq
      obtain ⟨hblock, -⟩ := List.cons.inj (List.append_cancel_left heq)
      rw [hblock, frame_bytes_length] at hlength
      exact hlength rfl

/-- What is stuck stays stuck. -/
theorem stuck_step (h : Stuck done frame d) (n : ℕ) : Stuck done frame (dirStep d n) := by
  cases h with
  | stopped hstopped hblocks =>
      rw [dirStep_of_stopped hstopped]
      exact .stopped hstopped hblocks
  | wrong block more hlength hblocks =>
      obtain ⟨later, hlater⟩ := dirStep_blocks d n
      apply Stuck.wrong block (more ++ later) hlength
      rw [hlater, hblocks, List.append_assoc, List.cons_append]
  | misled hwaiting hstate hremain hblocks =>
      by_cases hstopped : d.stopped = true
      · rw [dirStep_of_stopped hstopped]
        exact .stopped hstopped hblocks
      rw [Bool.not_eq_true] at hstopped
      generalize hs : halfRead (fun _ _ => 0) true d.half (d.offer n) = s
      have houtcome := @halfRead_outcome (fun _ _ => 0) true _ hwaiting (d.offer n)
      rw [hs] at houtcome
      cases houtcome with
      | internalError hshort =>
          rw [dirStep_of_leave hstopped hs]
          exact .stopped rfl hblocks
      | readFailed hroom =>
          rw [dirStep_of_leave hstopped hs]
          exact .stopped rfl hblocks
      | more hroom hmore =>
          rw [dirStep_of_done hstopped hs]
          exact .misled (waiting_received hwaiting hroom hmore.le) hstate hremain hblocks
      | invalidHeader hroom hfull hheader => exact absurd hheader hstate
      | header hroom hfull hheader => exact absurd hheader hstate
      | rejected hroom hfull hbody hpass => cases hpass
      | @forward bytes hroom hfull hbody =>
          obtain ⟨hring, -⟩ := received_atStart hwaiting hroom hfull.le
          have hcount : (d.half.received bytes).ring.count = d.half.packetRemain := hfull
          rw [← hcount] at hs
          rw [@dirStep_of_write d n ⟨(d.half.received bytes).ring, .psHeader, 4⟩ bytes hstopped
            hring hs]
          have hlength := contents_length hring
          apply Stuck.wrong (d.half.received bytes).ring.contents []
          · omega
          · show d.blocks ++ [(d.half.received bytes).ring.contents] = _
            rw [hblocks]

/-- A poll that does not go well leads out of step. -/
theorem sound_misled (h : Sound done rest d) {n : ℕ} (hbad : ¬ PollsWell d n) :
    ∃ frame tail, rest = frame :: tail ∧ Stuck done frame (dirStep d n) := by
  cases sound_turn h n with
  | failed hstate hchunk hsome hstep =>
      obtain ⟨frame, tail, hrest, -⟩ := h.body hstate
      rw [hstep]
      exact ⟨frame, tail, hrest, .stopped rfl h.blocks⟩
  | more bytes hbytes hnone htaken hmore hstep =>
      refine absurd ⟨fun hstate hfull => ?_, fun hstate hchunk => ?_⟩ hbad
      · rw [htaken] at hfull
        omega
      · unfold Half.chunk at hchunk
        omega
  | header bytes frame tail hbytes htaken hfull hstate hrest hlength hstep =>
      refine ⟨frame, tail, hrest, ?_⟩
      rw [hstep]
      by_cases hgt : 0x1FFFFF < d.half.headerWord bytes
      · rw [if_pos hgt]
        exact .stopped rfl h.blocks
      · rw [if_neg hgt]
        have hne : d.half.headerWord bytes ≠ frame.body.length := by
          intro hword
          apply hbad
          refine ⟨fun _ _ => ?_, fun hne => absurd hstate hne⟩
          rw [htaken]
          exact window_eq_of_be32_eq (hword.trans hlength.symm)
        refine .misled (waiting_headed h.waiting (sound_room h).1 hfull hstate _) (fun hne => ?_) ?_
          h.blocks
        · cases hne
        · show (d.half.headerWord bytes : ℤ) + 4 ≠ frame.body.length + 4
          omega
  | frame bytes frame tail hbytes hnone hfull hstate hrest hpending hstep =>
      refine absurd ⟨fun hheader => absurd hheader hstate, fun _ hchunk => ?_⟩ hbad
      unfold Half.chunk at hchunk
      exact hnone.mp (List.length_eq_zero_iff.mp (by omega))

end Stuck

/-! ## Whole runs -/

section Runs

variable {data : ℤ → UInt8} {frames : List Frame} {sched : ℕ → ℕ}

/-- Before any header has been misread the direction is sound, with the frames divided into those
done and the rest. -/
theorem sound_at {t : ℕ}
    (hwell : ∀ u, u < t → PollsWell (directionAt data frames sched u) (sched u)) :
    ∃ done rest, done ++ rest = frames ∧ Sound done rest (directionAt data frames sched t) := by
  induction t with
  | zero => exact ⟨[], frames, rfl, sound_start data frames⟩
  | succ t ih =>
      obtain ⟨done, rest, happend, hsound⟩ := ih fun u hu => hwell u (Nat.lt_succ_of_lt hu)
      obtain ⟨done', rest', happend', hsound', -⟩ :=
        sound_poll hsound (hwell t (Nat.lt_succ_self t))
      exact ⟨done', rest', happend'.trans happend, hsound'⟩

/-- After a poll that does not go well the blocks are never those of the stream. -/
theorem misled_at {t : ℕ}
    (hwell : ∀ u, u < t → PollsWell (directionAt data frames sched u) (sched u))
    (hbad : ¬ PollsWell (directionAt data frames sched t) (sched t)) {u : ℕ} (hu : t < u) :
    (directionAt data frames sched u).blocks ≠ frames.map Frame.bytes := by
  obtain ⟨done, rest, happend, hsound⟩ := sound_at hwell
  obtain ⟨frame, tail, rfl, hstuck⟩ := sound_misled hsound hbad
  have hlater : Stuck done frame (directionAt data frames sched u) :=
    @runAt_invariant _ _ dirStep _ sched (Stuck done frame) (fun _ n h => stuck_step h n) (t + 1)
      hstuck u hu
  have hblocks := stuck_blocks hlater tail
  rw [happend] at hblocks
  exact hblocks

/-- When all frames are done, no block comes to them any more. -/
theorem blocks_stay (hwell : ∀ t, PollsWell (directionAt data frames sched t) (sched t)) {T : ℕ}
    (hT : (directionAt data frames sched T).blocks = frames.map Frame.bytes) {t : ℕ} (ht : T ≤ t) :
    (directionAt data frames sched t).blocks = frames.map Frame.bytes := by
  induction t, ht using Nat.le_induction with
  | base => exact hT
  | succ t ht ih =>
      obtain ⟨more, hmore⟩ := dirStep_blocks (directionAt data frames sched t) (sched t)
      obtain ⟨done, rest, happend, hsound⟩ := @sound_at data frames sched (t + 1) fun u _ => hwell u
      have hblocks :
          (directionAt data frames sched (t + 1)).blocks = frames.map Frame.bytes ++ more := by
        rw [← ih]
        exact hmore
      have hdone := hsound.blocks
      rw [hblocks, ← happend, List.map_append, List.append_assoc,
        List.append_right_eq_self] at hdone
      rw [hblocks, (List.append_eq_nil_iff.mp hdone).2, List.append_nil]

/-- The bytes that are to come and the frames that are to be written. -/
def left (frames : List Frame) (d : Direction) : ℕ :=
  d.pending.length + (frames.length - d.blocks.length)

/-- What is left of a sound direction: the bytes of its stream and the frames to come. -/
theorem left_eq {done rest : List Frame} {d : Direction} (h : Sound done rest d) :
    left (done ++ rest) d = d.pending.length + rest.length := by
  unfold left
  rw [h.blocks, List.length_map, List.length_append, Nat.add_sub_cancel_left]

/-- A poll that goes well leaves no more to do, and less if some bytes have arrived or all
have been received. -/
theorem left_step (hwell : ∀ t, PollsWell (directionAt data frames sched t) (sched t)) (t : ℕ) :
    left frames (directionAt data frames sched (t + 1)) ≤
        left frames (directionAt data frames sched t) ∧
      ((directionAt data frames sched t).blocks ≠ frames.map Frame.bytes →
        0 < sched t ∨ (directionAt data frames sched t).pending = [] →
        left frames (directionAt data frames sched (t + 1)) <
          left frames (directionAt data frames sched t)) := by
  obtain ⟨done, rest, happend, hsound⟩ := @sound_at data frames sched t fun u _ => hwell u
  obtain ⟨done', rest', happend', hsound', hle, hlt⟩ := sound_poll hsound (hwell t)
  have hleft : left frames (directionAt data frames sched t) = _ := happend ▸ left_eq hsound
  have hleft' : left frames (directionAt data frames sched (t + 1)) = _ :=
    (happend'.trans happend) ▸ left_eq hsound'
  rw [hleft, hleft']
  refine ⟨hle, fun hblocks hprogress => hlt ?_ hprogress⟩
  intro hnil
  rw [hnil, List.append_nil] at happend
  apply hblocks
  rw [hsound.blocks, happend]

/-- With every header read right, all frames are written in the end. -/
theorem framed_progress (hdelivers : Delivers data frames sched)
    (hwell : ∀ t, PollsWell (directionAt data frames sched t) (sched t)) :
    ∃ T, (directionAt data frames sched T).blocks = frames.map Frame.bytes := by
  have hanti : Antitone fun t => left frames (directionAt data frames sched t) :=
    antitone_nat_of_succ_le fun t => (left_step hwell t).1
  by_contra hnever
  rw [not_exists] at hnever
  have hfall : ∀ t, ∃ t', t < t' ∧ left frames (directionAt data frames sched t') <
      left frames (directionAt data frames sched t) := by
    intro t
    by_cases hpending : (directionAt data frames sched t).pending = []
    · exact ⟨t + 1, Nat.lt_succ_self t, (left_step hwell t).2 (hnever t) (Or.inr hpending)⟩
    · obtain ⟨t', hle, hpos⟩ := hdelivers t hpending
      have hlt := (left_step hwell t').2 (hnever t') (Or.inl hpos)
      exact ⟨t' + 1, Nat.lt_succ_of_le hle, hlt.trans_le (hanti hle)⟩
  obtain ⟨T, -, hfalse⟩ := @eventually_of_progress (fun _ => False) _ (fun t _ => hfall t) 0
  exact hfalse

/-- Nothing happens to a direction that waits for more when nothing is to come. -/
theorem dirStep_idle {d : Direction} (hrunning : d.stopped = false) (hring : d.half.ring.AtStart)
    (hroom : d.half.packetRemain ≤ d.half.ring.size)
    (hmore : d.half.ring.count < d.half.packetRemain) (hpending : d.pending = []) (n : ℕ) :
    dirStep d n = d := by
  have hread : tcpRead (d.offer n) d.half.chunk = ([], (([] : List UInt8).length : ℤ)) := by
    unfold Direction.offer
    rw [hpending, List.take_nil, if_pos rfl]
    rfl
  have heq := @halfRead_of_read (fun _ _ => 0) true _ hring hroom _ _ hread
  rw [if_neg (by simpa using hmore.ne), Half.received, ringProduce_nil hring] at heq
  rw [dirStep_of_done hrunning heq]
  obtain ⟨half, pending, blocks, stopped⟩ := d
  cases hrunning
  rfl

/-- **When the blocks are the frames.** Under a schedule that delivers the stream, the
blocks written come to be its frames iff every poll goes well. -/
theorem framed_iff (data : ℤ → UInt8) (frames : List Frame) (sched : ℕ → ℕ)
    (hdelivers : Delivers data frames sched) :
    Framed data frames sched ↔
      ∀ t, PollsWell (directionAt data frames sched t) (sched t) := by
  constructor
  · rintro ⟨T, hT⟩
    by_contra hbad
    rw [not_forall] at hbad
    classical
    have hleast := fun u hu => not_not.mp (@Nat.find_min _ _ hbad u hu)
    have hmisled := misled_at hleast (Nat.find_spec hbad) (Nat.lt_succ_of_le (Nat.le_max_left _ T))
    exact hmisled (hT _ (Nat.le_succ_of_le (Nat.le_max_right _ T)))
  · intro hwell
    obtain ⟨T, hT⟩ := framed_progress hdelivers hwell
    exact ⟨T, fun t ht => blocks_stay hwell hT ht⟩

end Runs

/-! ## One frame of one byte -/

/-- The frame `00 00 00 01 AA`. -/
def byteFrame : Frame := ⟨[0xAA], by decide⟩

/-- A direction that does nothing on any number of bytes stays as it is. -/
theorem directionAt_idle {data : ℤ → UInt8} {frames : List Frame} {sched : ℕ → ℕ} {T : ℕ}
    (hidle : ∀ n, dirStep (directionAt data frames sched T) n = directionAt data frames sched T)
    {t : ℕ} (ht : T ≤ t) : directionAt data frames sched t = directionAt data frames sched T := by
  apply @runAt_invariant _ _ dirStep _ sched (· = directionAt data frames sched T) _ T rfl t ht
  rintro _ n rfl
  exact hidle n

/-- Its header in one piece, then its body. -/
theorem framed_iff_whole : Framed (fun _ => 0) [byteFrame] (fun _ => 4) := by
  apply (framed_iff _ _ _ fun t _ => ⟨t, le_rfl, by omega⟩).mpr
  intro t
  match t with
  | 0 => exact ⟨fun _ _ => rfl, fun hstate => absurd rfl hstate⟩
  | 1 =>
      refine ⟨fun hstate => ?_, fun _ hchunk => absurd hchunk (by decide +kernel)⟩
      cases hstate
  | t + 2 =>
      have hidle := @dirStep_idle (directionAt (fun _ => 0) [byteFrame] (fun _ => 4) 2) rfl
        (by decide +kernel) (by decide +kernel) (by decide +kernel) rfl
      rw [directionAt_idle hidle (Nat.le_add_left 2 t)]
      exact ⟨fun _ hfull => absurd hfull (by decide +kernel), fun hstate => absurd rfl hstate⟩

/-- Its header in two pieces: a length of 256 is read at the second, and the body is all
that ever comes. -/
theorem byteFrame_misled (t : ℕ) (ht : 3 ≤ t) :
    (directionAt (fun _ => 0) [byteFrame] (fun t => if t = 0 then 1 else 3) t).blocks = [] := by
  have hidle := @dirStep_idle
    (directionAt (fun _ => 0) [byteFrame] (fun t => if t = 0 then 1 else 3) 3) rfl
    (by decide +kernel) (by decide +kernel) (by decide +kernel) rfl
  rw [directionAt_idle hidle ht]
  rfl

/-- **Framing does depend on how the stream is cut.** -/
theorem not_framed : ¬ ∀ (data : ℤ → UInt8) (frames : List Frame) (sched : ℕ → ℕ),
    Delivers data frames sched → Framed data frames sched := by
  intro hframed
  have hdelivers : Delivers (fun _ => 0) [byteFrame] fun t => if t = 0 then 1 else 3 := by
    intro t _
    refine ⟨t, le_rfl, ?_⟩
    dsimp only
    split_ifs <;> omega
  obtain ⟨T, hT⟩ := hframed _ _ _ hdelivers
  have hblocks := hT (max T 3) (le_max_left T 3)
  rw [byteFrame_misled _ (le_max_right T 3)] at hblocks
  cases hblocks

end SmbProxy.Analysis
