import SmbProxy.Analysis.FrameRoom
import SmbProxy.Analysis.Relaying
import SmbProxy.Analysis.Verdict

/-!
# Nothing but SMB gets through

Without passthrough every block that is sent has been judged, and the judged bytes are those
that are sent, so a block that is accepted carries a message that `smbproto_packet` accepts:
four bytes behind its start is the magic of one of the two protocols, with a complete header.
How long a block is the proxy takes from its header, and not always as it is meant: as long as it
does (`LengthTaken`), the blocks are the frames of the two ends (`headerKept_halfRead`). With
`run_linked` this holds of all connections of the process.
-/

set_option autoImplicit false

namespace SmbProxy.Analysis

open SmbProxy.Library SmbProxy.Model SmbProxy.Interface

/-! ## A judged block -/

section Judged

variable {packet : (ℤ → UInt8) → ℤ → ℤ} {passthrough : Bool} {half : Half}

/-- **The block that is judged is the block that is sent.** Behind its first four bytes it is
what `packet` has been given. -/
theorem halfRead_judged (h : half.Waiting) {event : ReadEvent} {e : List UInt8 × ℤ}
    (he : (halfRead packet passthrough half event).judged = some e) :
    4 ≤ e.1.length ∧ ∃ mem, window mem 0 (e.1.length - 4) = e.1.drop 4 ∧
      e.2 = packet mem (e.1.length - 4) := by
  by_cases hshort : half.ring.size < half.packetRemain
  · rw [halfRead_of_short h.ring hshort] at he
    cases he
  have hroom := not_lt.mp hshort
  rcases tcpRead_chunk_cases h event with hfail | ⟨bytes, hfit, hread⟩
  · rw [halfRead_of_failed h.ring hroom hfail] at he
    cases he
  rw [halfRead_of_read h.ring hroom hread] at he
  obtain ⟨hring, -⟩ := received_atStart h hroom hfit
  by_cases hfull : half.ring.count + bytes.length = half.packetRemain
  · rw [if_pos hfull] at he
    by_cases hstate : half.packetState = .psHeader
    · rw [if_pos hstate] at he
      unfold halfHeader at he
      dsimp only at he
      split_ifs at he
    · have hbody := h.body hstate
      have hcount : (half.received bytes).ring.count = half.ring.count + bytes.length := rfl
      have hlength := contents_length hring
      rw [if_neg hstate, halfBody_eq hring (by omega)] at he
      -- Accepted or not, what is judged is all that is in the ring.
      have hjudged : passthrough = false ∧ e = ((half.received bytes).ring.contents,
          packet (fun i => (half.received bytes).ring.data (0 + 4 + i))
            ((half.received bytes).ring.count - 4)) := by
        unfold halfVerdict at he
        cases passthrough <;> split_ifs at he <;> simp_all
      obtain ⟨-, rfl⟩ := hjudged
      refine ⟨by dsimp only; omega, fun i => (half.received bytes).ring.data (0 + 4 + i), ?_, ?_⟩
      · dsimp only
        rw [contents_of_atStart hring, window_length, window_shift, window_drop _ _ (by omega)]
        rfl
      · dsimp only
        rw [hlength]
  · rw [if_neg hfull] at he
    cases he

end Judged

/-! ## A connection without passthrough -/

section Screened

variable {packet : Bool → (ℤ → UInt8) → ℤ → ℤ} {c : Conn}

/-- The blocks that have been accepted. -/
def acceptedBlocks (judged : List (List UInt8 × ℤ)) : List (List UInt8) :=
  (judged.filter fun e => e.2 = 0).map Prod.fst

/-- Without passthrough the accepted blocks are behind what has been sent, and in front of what
has been received. -/
theorem acceptedBlocks_of_flow {half : Half} {rx tx : List UInt8}
    {judged : List (List UInt8 × ℤ)} {phase : Phase} (h : Flow false half rx tx judged phase) :
    tx <+: (acceptedBlocks judged).flatten ∧ (acceptedBlocks judged).flatten <+: rx := by
  have hall : ∀ {accepted : List (List UInt8 × ℤ)}, (∀ e ∈ accepted, e.2 = 0) →
      acceptedBlocks accepted = accepted.map Prod.fst := by
    intro accepted hzero
    unfold acceptedBlocks
    rw [List.filter_eq_self.mpr fun e he => decide_eq_true (hzero e he)]
  have hquiet : rx = tx ++ half.ring.contents → Accepted false judged tx →
      tx <+: (acceptedBlocks judged).flatten ∧ (acceptedBlocks judged).flatten <+: rx := by
    intro hrx haccepted
    obtain ⟨htx, hzero⟩ := haccepted rfl
    rw [hall hzero, ← htx]
    exact ⟨List.prefix_refl _, ⟨_, hrx.symm⟩⟩
  have hsending : ∀ {before : List UInt8} {sent : ℕ}, rx = before ++ half.ring.contents →
      tx = before ++ half.ring.contents.take sent → Accepted false judged rx →
      tx <+: (acceptedBlocks judged).flatten ∧ (acceptedBlocks judged).flatten <+: rx := by
    intro before sent hrx htx haccepted
    obtain ⟨hflatten, hzero⟩ := haccepted rfl
    rw [hall hzero, ← hflatten]
    refine ⟨?_, List.prefix_refl _⟩
    rw [hrx, htx, List.prefix_append_right_inj]
    exact List.take_prefix _ _
  cases h with
  | waiting _ hrx haccepted => exact hquiet hrx haccepted
  | left _ _ _ hrx haccepted => exact hquiet hrx haccepted
  | writing _ _ _ _ hrx htx haccepted => exact hsending hrx htx haccepted
  | writeFailed _ hrx htx haccepted => exact hsending hrx htx haccepted
  | @rejected accepted verdict _ hrx hne hjudged haccepted =>
      obtain ⟨htx, hzero⟩ := haccepted rfl
      have hblocks : acceptedBlocks judged = acceptedBlocks accepted := by
        unfold acceptedBlocks
        rw [hjudged, List.filter_append]
        simp [hne]
      rw [hblocks, hall hzero, ← htx]
      exact ⟨List.prefix_refl _, ⟨_, hrx.symm⟩⟩

/-- What a step adds to the judged blocks. -/
theorem step_judged (packet : Bool → (ℤ → UInt8) → ℤ → ℤ) (c : Conn) (event : LoopEvent)
    (side : Side) :
    (step packet c event.input).judged side = c.judged side ∨
      ∃ readEvent isclient, event = .read readEvent ∧ c.pc = .read side ∧
        (step packet c event.input).judged side = c.judged side ++
          (halfRead (packet isclient) c.passthrough (c.half side) readEvent).judged.toList := by
  rcases step_input packet c event with
    hsame | ⟨readEvent, side', rfl, hpc⟩ | ⟨writeEvent, side', ioptr, chunk, sent, rfl, hpc⟩
  · rw [hsame]
    exact Or.inl rfl
  · obtain ⟨isclient, hhalf⟩ := sideHalf_eq packet side'
    unfold LoopEvent.input step
    simp only [hpc, Conn.readStep, hhalf]
    rcases eq_or_eq_peer side' side with rfl | rfl
    · refine Or.inr ⟨readEvent, isclient, rfl, rfl, ?_⟩
      rw [Function.update_self]
    · left
      rw [Function.update_of_ne (peer_ne side')]
  · left
    unfold LoopEvent.input step
    simp only [hpc, Conn.writeStep]

/-- The proxy loop does not change its mode. -/
theorem step_passthrough (packet : Bool → (ℤ → UInt8) → ℤ → ℤ) (c : Conn) (event : LoopEvent) :
    (step packet c event.input).passthrough = c.passthrough := by
  rcases step_input packet c event with
    hsame | ⟨readEvent, side, rfl, hpc⟩ | ⟨writeEvent, side, ioptr, chunk, sent, rfl, hpc⟩
  · rw [hsame]
  · unfold LoopEvent.input step
    simp only [hpc, Conn.readStep]
  · unfold LoopEvent.input step
    simp only [hpc, Conn.writeStep]

/-- A connection without passthrough, all of whose accepted blocks carry an SMB header. -/
structure Screens (c : Conn) : Prop where
  off : c.passthrough = false
  flows : Flows c
  blocks : ∀ side, ∀ block ∈ acceptedBlocks (c.judged side), SmbBlock block

/-- What a verdict has to say no to. -/
def BlocksJudged (packet : Bool → (ℤ → UInt8) → ℤ → ℤ) : Prop :=
  ∀ isclient mem (block : List UInt8), 4 ≤ block.length →
    window mem 0 (block.length - 4) = block.drop 4 → packet isclient mem (block.length - 4) = 0 →
      SmbBlock block

/-- A property of the accepted blocks is kept, if the block that is judged has it. -/
theorem accepted_step {P : List UInt8 → Prop} {side : Side} {event : LoopEvent}
    (hold : ∀ block ∈ acceptedBlocks (c.judged side), P block)
    (hnew : ∀ readEvent isclient, event = .read readEvent → c.pc = .read side →
      ∀ e ∈ (halfRead (packet isclient) c.passthrough (c.half side) readEvent).judged,
        e.2 = 0 → P e.1) :
    ∀ block ∈ acceptedBlocks ((step packet c event.input).judged side), P block := by
  intro block hmem
  rcases step_judged packet c event side with hsame | ⟨readEvent, isclient, hevent, hpc, hjudged⟩
  · rw [hsame] at hmem
    exact hold block hmem
  · unfold acceptedBlocks at hmem
    rw [hjudged, List.filter_append, List.map_append, List.mem_append] at hmem
    cases hmem with
    | inl hbefore => exact hold block hbefore
    | inr hjust =>
        obtain ⟨e, he, rfl⟩ := List.mem_map.mp hjust
        obtain ⟨he, hzero⟩ := List.mem_filter.mp he
        exact hnew readEvent isclient hevent hpc e (Option.mem_toList.mp he) (of_decide_eq_true hzero)

/-- **A step keeps the accepted blocks SMB.** -/
theorem screens_step (hpacket : BlocksJudged packet) (h : Screens c) (event : LoopEvent) :
    Screens (step packet c event.input) where
  off := by rw [step_passthrough, h.off]
  flows := flows_step packet h.flows event.input
  blocks side := by
    refine accepted_step (h.blocks side) fun readEvent isclient _ hpc e he hzero => ?_
    obtain ⟨hlength, mem, hmem, hverdict⟩ :=
      halfRead_judged (waiting_of_flows h.flows hpc side) he
    rw [hzero] at hverdict
    exact hpacket isclient mem e.1 hlength hmem hverdict.symm

/-- What is left of a connection without passthrough, if all its accepted blocks are such. -/
def Filtered (Block : List UInt8 → Prop) (client : Socket) (clientJudged : List (List UInt8 × ℤ))
    (server : Socket) (serverJudged : List (List UInt8 × ℤ)) : Prop :=
  (∀ block ∈ acceptedBlocks clientJudged, Block block) ∧
    (∀ block ∈ acceptedBlocks serverJudged, Block block) ∧
    (server.tx <+: (acceptedBlocks clientJudged).flatten ∧
      (acceptedBlocks clientJudged).flatten <+: client.rx) ∧
    client.tx <+: (acceptedBlocks serverJudged).flatten ∧
      (acceptedBlocks serverJudged).flatten <+: server.rx

/-- The flows of such a connection are those without passthrough. -/
theorem flow_of_screens (h : Screens c) (side : Side) :
    Flow false (c.half side) (c.socket side).rx (c.socket side.peer).tx (c.judged side)
      (phaseOf side c.pc) := by
  have hflow := h.flows side
  rw [h.off] at hflow
  exact hflow

/-- What its accepted blocks are, is what passes. -/
theorem filtered_of_screens {Block : List UInt8 → Prop} (h : Screens c)
    (hblocks : ∀ side, ∀ block ∈ acceptedBlocks (c.judged side), Block block) :
    Filtered Block (c.socket .client) (c.judged .client) (c.socket .server) (c.judged .server) :=
  ⟨hblocks .client, hblocks .server, acceptedBlocks_of_flow (flow_of_screens h .client),
    acceptedBlocks_of_flow (flow_of_screens h .server)⟩

/-- Where nothing has passed there is nothing to be said. -/
theorem filtered_empty (Block : List UInt8 → Prop) : Filtered Block ⟨[], []⟩ [] ⟨[], []⟩ [] := by
  refine ⟨fun _ hmem => ?_, fun _ hmem => ?_, ⟨List.nil_prefix, List.nil_prefix⟩,
    List.nil_prefix, List.nil_prefix⟩
  · cases hmem
  · cases hmem

/-- A connection starts without blocks. -/
theorem screens_start (c : Conn) (hsize : ∀ side, 1 ≤ (c.half side).ring.size) :
    Screens (c.start false) := by
  refine ⟨rfl, fun side => flow_start (hsize side) false, fun side block hmem => ?_⟩
  cases hmem

/-- Without passthrough the mode of a connection stays as it is. -/
theorem screens_mode (h : Screens c) : { c with passthrough := false } = c := by
  rw [← h.off]

/-- What a connection keeps whatever happens to it. -/
theorem screens_rule (hpacket : BlocksJudged packet) :
    ConnRule packet (fun mode => mode = false) AnyEvent Screens (Filtered SmbBlock) where
  off := rfl
  start c mode hsize hmode := by
    subst hmode
    exact screens_start c hsize
  step c event h _ := screens_step hpacket h event
  size c event side h := carried_size ⟨c.passthrough, c.judged, h.flows⟩ event side
  mode c mode h hmode := by
    subst hmode
    rw [screens_mode h]
    exact h
  done c h := filtered_of_screens h h.blocks
  empty := filtered_empty SmbBlock

/-! ## Where every header is taken for its length -/

/-- A half that waits for the rest of a message has its header in the ring. -/
def HeaderKept (half : Half) : Prop :=
  half.packetState ≠ .psHeader →
    ∃ length : ℕ, half.packetRemain = length + 4 ∧ half.ring.contents.take 4 = be32Bytes length

/-- More bytes leave the header where it is. -/
theorem headerKept_received {half : Half} (h : half.Waiting) (hkept : HeaderKept half)
    (hroom : half.packetRemain ≤ half.ring.size) {bytes : List UInt8}
    (hfit : half.ring.count + bytes.length ≤ half.packetRemain) :
    HeaderKept (half.received bytes) := by
  intro hstate
  obtain ⟨length, hremain, hheader⟩ := hkept hstate
  obtain ⟨-, hcontents⟩ := received_atStart h hroom hfit
  have hfour : 4 ≤ half.ring.contents.length := by
    have hbody := h.body hstate
    have hlength := contents_length h.ring
    omega
  exact ⟨length, hremain, by rw [hcontents, List.take_append_of_le_length hfour, hheader]⟩

/-- A complete message is as long as its header says. -/
theorem length_of_headerKept {half : Half} (h : half.Waiting) (hkept : HeaderKept half)
    (hroom : half.packetRemain ≤ half.ring.size) {bytes : List UInt8}
    (hfull : half.ring.count + bytes.length = half.packetRemain)
    (hstate : half.packetState ≠ .psHeader) :
    (half.received bytes).ring.contents.take 4 =
      be32Bytes ((half.received bytes).ring.contents.length - 4) := by
  obtain ⟨length, hremain, hheader⟩ := headerKept_received h hkept hroom hfull.le hstate
  have hlength : (half.received bytes).ring.contents.length - 4 = length := by
    have hcontents := contents_length (received_atStart h hroom hfull.le).1
    have hcount : (half.received bytes).ring.count = half.packetRemain := hfull
    have hremain : half.packetRemain = length + 4 := hremain
    omega
  rw [hheader, hlength]

/-- **A read keeps the header**, and what it has judged is as long as its header says, if a header
that it completes is taken for the length that it says. -/
theorem headerKept_halfRead {packet : (ℤ → UInt8) → ℤ → ℤ} {passthrough : Bool} {half : Half}
    (h : half.Waiting) (hkept : HeaderKept half) (event : ReadEvent)
    (htaken : half.packetState = .psHeader →
      half.ring.count + ((tcpRead event half.chunk).1.length : ℤ) = half.packetRemain →
        half.ring.contents ++ (tcpRead event half.chunk).1 =
          be32Bytes (half.headerWord (tcpRead event half.chunk).1)) :
    HeaderKept (halfRead packet passthrough half event).half ∧
      ∀ e ∈ (halfRead packet passthrough half event).judged,
        e.1.take 4 = be32Bytes (e.1.length - 4) := by
  have houtcome := @halfRead_outcome packet passthrough half h event
  have hreceived := fun hroom => @halfRead_received packet passthrough half h hroom event
  generalize halfRead packet passthrough half event = s at houtcome hreceived ⊢
  have hnone : ∀ e ∈ (none : Option (List UInt8 × ℤ)), e.1.take 4 = be32Bytes (e.1.length - 4) := by
    intro e he
    cases he
  cases houtcome with
  | internalError _ => exact ⟨hkept, hnone⟩
  | readFailed _ => exact ⟨hkept, hnone⟩
  | more hroom hfit => exact ⟨headerKept_received h hkept hroom hfit.le, hnone⟩
  | invalidHeader _ _ hstate _ => exact ⟨fun hne => absurd hstate hne, hnone⟩
  | @header bytes hroom hfull hstate _ =>
      rw [← hreceived hroom] at htaken
      have hheader : half.ring.contents ++ bytes = be32Bytes (half.headerWord bytes) :=
        htaken hstate hfull
      refine ⟨fun _ => ⟨half.headerWord bytes, rfl, ?_⟩, hnone⟩
      show (half.received bytes).ring.contents.take 4 = _
      rw [(received_atStart h hroom hfull.le).2, hheader]
      rfl
  | rejected hroom hfull hstate _ _ =>
      refine ⟨headerKept_received h hkept hroom hfull.le, fun e he => ?_⟩
      obtain rfl := Option.some.inj he
      exact length_of_headerKept h hkept hroom hfull hstate
  | forward hroom hfull hstate =>
      refine ⟨fun hne => absurd rfl hne, fun e he => ?_⟩
      cases passthrough with
      | true => cases he
      | false =>
          obtain rfl := Option.some.inj he
          exact length_of_headerKept h hkept hroom hfull hstate

/-- A connection without passthrough, all of whose accepted blocks are frames. -/
structure ScreensFrames (c : Conn) : Prop where
  screens : Screens c
  kept : ∀ side, HeaderKept (c.half side)
  frames : ∀ side, ∀ block ∈ acceptedBlocks (c.judged side), SmbFrame block

/-- In `tcp_write` a half already waits for a header. -/
theorem headerKept_halfWrite {half : Half} (hstate : half.packetState = .psHeader)
    (ioptr chunk sent : ℤ) (event : WriteEvent) :
    HeaderKept (halfWrite half ioptr chunk sent event).half := by
  have hsame : (halfWrite half ioptr chunk sent event).half.packetState = half.packetState := by
    unfold halfWrite
    cases hnext : (tcpWriteBody (fun i => half.ring.data (ioptr + i)) chunk sent event).next with
    | inl sent' => simp only [hnext]
    | inr result =>
        simp only [hnext]
        split_ifs <;> rfl
  exact fun hne => absurd (hsame.trans hstate) hne

/-- A connection that reads is told whether a header is taken for its length. -/
theorem lengthTaken_read {event : ReadEvent} {side : Side} (hpc : c.pc = .read side)
    (h : LengthTaken c (.read event)) :
    (c.half side).packetState = .psHeader →
      (c.half side).ring.count + ((tcpRead event (c.half side).chunk).1.length : ℤ) =
        (c.half side).packetRemain →
      (c.half side).ring.contents ++ (tcpRead event (c.half side).chunk).1 =
        be32Bytes ((c.half side).headerWord (tcpRead event (c.half side).chunk).1) := by
  simp only [LengthTaken, hpc] at h
  exact h

/-- A step keeps the headers of both halves, if it takes one that it completes for its length. -/
theorem headerKept_step (h : Screens c) (hkept : ∀ side, HeaderKept (c.half side))
    {event : LoopEvent} (htaken : LengthTaken c event) (side : Side) :
    HeaderKept ((step packet c event.input).half side) := by
  rcases step_half packet c event.input side with
    heq | heq | ⟨readEvent, isclient, hevent, hpc, heq⟩ | ⟨writeEvent, ioptr, chunk, sent, hpc, heq⟩
  · rw [heq]
    exact hkept side
  · rw [heq]
    exact fun hne => absurd rfl hne
  · cases event with
    | write _ => cases hevent
    | read readEvent' =>
        obtain rfl := Input.read.inj hevent
        rw [heq]
        exact (headerKept_halfRead (waiting_of_flows h.flows hpc side) (hkept side) readEvent'
          (lengthTaken_read hpc htaken)).1
  · rw [heq]
    have hflow := flow_of_screens h side
    simp only [phaseOf, hpc, if_true] at hflow
    cases hflow with
    | writing _ hstate => exact headerKept_halfWrite hstate _ _ _ _

/-- **A step keeps the accepted blocks frames**, if a header that it completes is taken for the
length that it says. -/
theorem screensFrames_step (hpacket : BlocksJudged packet) (h : ScreensFrames c)
    {event : LoopEvent} (htaken : LengthTaken c event) :
    ScreensFrames (step packet c event.input) where
  screens := screens_step hpacket h.screens event
  kept := headerKept_step h.screens h.kept htaken
  frames side := by
    refine accepted_step (h.frames side) fun readEvent isclient hevent hpc e he hzero => ?_
    subst hevent
    have hwaiting := waiting_of_flows h.screens.flows hpc side
    obtain ⟨hlength, mem, hmem, hverdict⟩ := halfRead_judged hwaiting he
    rw [hzero] at hverdict
    exact ⟨hpacket isclient mem e.1 hlength hmem hverdict.symm, (headerKept_halfRead hwaiting
      (h.kept side) readEvent (lengthTaken_read hpc htaken)).2 e he⟩

/-- What a connection keeps whose headers are taken for their lengths. -/
theorem screensFrames_rule (hpacket : BlocksJudged packet) :
    ConnRule packet (fun mode => mode = false) LengthTaken ScreensFrames (Filtered SmbFrame) where
  off := rfl
  start c mode hsize hmode := by
    subst hmode
    refine ⟨screens_start c hsize, fun side hne => absurd rfl hne, fun side block hmem => ?_⟩
    cases hmem
  step c event h htaken := screensFrames_step hpacket h htaken
  size c event side h := carried_size ⟨c.passthrough, c.judged, h.screens.flows⟩ event side
  mode c mode h hmode := by
    subst hmode
    rw [screens_mode h.screens]
    exact h
  done c h := filtered_of_screens h.screens h.frames
  empty := filtered_empty SmbFrame

end Screened

/-! ## The verdict of `smbproto_packet` -/

/-- **An accepted block carries an SMB header.** -/
theorem smbgwVerdict_judges (literal : ℤ → UInt8) (hliteral : literal 0 = 0) (fuel : ℕ) :
    BlocksJudged (smbgwVerdict literal hliteral fuel) := by
  intro isclient mem block hlength hmem hzero
  unfold smbgwVerdict at hzero
  split_ifs at hzero with hbytes
  · have hreturns : Returns ⟨mem, literal, block.length - 4, hliteral, hbytes.1, hbytes.2⟩
        isclient 0 := by
      refine ⟨fuel, ?_⟩
      cases hresult : (smbprotoPacket ⟨mem, literal, block.length - 4, hliteral, hbytes.1, hbytes.2⟩
          isclient fuel).result with
      | none =>
          rw [hresult] at hzero
          cases hzero
      | some r =>
          rw [hresult] at hzero
          exact congrArg some hzero
    have htake : ∀ {n : ℕ}, n + 4 ≤ block.length → (block.drop 4).take n = window mem 0 n := by
      intro n hn
      rw [← hmem, window_take _ _ (by omega)]
    rcases (returns_iff 0).mp hreturns with ⟨-, ⟨hlong, hmagic, -⟩ | ⟨hlong, os, hos, hall⟩⟩ | ⟨hne, -⟩
    · have hlong' : (32 : ℤ) ≤ block.length - 4 := hlong
      left
      refine ⟨by omega, ?_⟩
      rw [htake (by omega)]
      exact hmagic
    · have hlong' : (64 : ℤ) ≤ block.length - 4 := hlong
      right
      refine ⟨by omega, ?_⟩
      rw [htake (by omega)]
      have hfirst : (0 : ℤ) ∈ os := by
        cases hos with
        | last => exact List.mem_cons_self
        | noMagic => exact List.mem_cons_self
        | next => exact List.mem_cons_self
      exact hall 0 hfirst
    · cases hne

section Process

variable {packet : Bool → (ℤ → UInt8) → ℤ → ℤ} {Block : List UInt8 → Prop} {Live : Conn → Prop}
  {size : ℤ}

/-- What is left of every pair is what is promised of it. -/
theorem screened_of_linked {s : Process}
    (h : Linked (fun mode => mode = false) Live (Filtered Block) size s) : Screened Block s := by
  constructor
  · rintro client server ⟨i, hi⟩
    obtain ⟨hblocks, -, hsent, -⟩ := h.done i client server hi
    exact ⟨_, hblocks, hsent.1, hsent.2⟩
  · rintro client server ⟨i, hi⟩
    obtain ⟨-, hblocks, -, hsent⟩ := h.done i client server hi
    exact ⟨_, hblocks, hsent.1, hsent.2⟩

/-- The blocks of a process without passthrough, whatever happens to it. -/
theorem screened_of_permitted (hpacket : BlocksJudged packet) (hsize : 1 ≤ size)
    (maxConnections : ℕ) (clientData serverData : ℕ → ℤ → UInt8) (locals : ℕ → ProxyLocals)
    {inputs : List ProcessInput}
    (hpermitted : Along (processStep packet) (Permitted (fun mode => mode = false) AnyEvent)
      (Process.init maxConnections size clientData serverData locals) inputs) :
    Screened SmbBlock (run (processStep packet)
      (Process.init maxConnections size clientData serverData locals) inputs) :=
  screened_of_linked
    (run_linked (screens_rule hpacket) hsize maxConnections clientData serverData locals hpermitted)

/-- Its frames, where every header is taken for its length. -/
theorem framed_of_permitted (hpacket : BlocksJudged packet) (hsize : 1 ≤ size)
    (maxConnections : ℕ) (clientData serverData : ℕ → ℤ → UInt8) (locals : ℕ → ProxyLocals)
    {inputs : List ProcessInput}
    (hpermitted : Along (processStep packet) (Permitted (fun mode => mode = false) LengthTaken)
      (Process.init maxConnections size clientData serverData locals) inputs) :
    Screened SmbFrame (run (processStep packet)
      (Process.init maxConnections size clientData serverData locals) inputs) :=
  screened_of_linked (run_linked (screensFrames_rule hpacket) hsize maxConnections clientData
    serverData locals hpermitted)

end Process

end SmbProxy.Analysis
