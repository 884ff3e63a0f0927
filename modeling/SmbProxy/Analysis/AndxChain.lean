import SmbProxy.Analysis.AndxWalk
import SmbProxy.Interface.AndxMessage
import Mathlib.Logic.Function.Iterate

/-!
# Which commands the AndX walk dispatches

On the wire a link points at the next block's WordCount byte and has its low byte first.
The loop takes the two bytes high byte first and the place they lead to as the AndX header
itself. `hop` is that reading, and `hop^[i] 33` the place where the loop looks for the
successor of the `i`-th command.

A chain is dispatched exactly when the byte at that place is the successor all the same,
for each AndX command but the first, whose header the loop does find
(`v1Packet_dispatches_iff`). Chains of one command, and of two whose second is not an
AndX command, meet this by themselves.
-/

set_option autoImplicit false

namespace SmbProxy.Analysis

open SmbProxy.Library SmbProxy.Model SmbProxy.Interface

/-- Where the loop goes from the parameters at `offset`. -/
def hop (p : Packet) (offset : ℤ) : ℤ :=
  ((p.mem (offset + 2)).toNat * 2 ^ 8 + (p.mem (offset + 3)).toNat : ℕ)

/-- What the shape of a chain says about its commands alone: all but the last are AndX,
and none but the first is `0xFF`. -/
def ChainShape : List UInt8 → Prop
  | [] => False
  | [_] => True
  | c :: c' :: cs => smbprotoIsAndxCommand c = true ∧ c' ≠ 0xFF ∧ ChainShape (c' :: cs)

/-- A chain begins with the command of its block. -/
theorem wireChain_cons {p : Packet} {c : UInt8} {b : ℤ} {cs : List UInt8}
    (h : WireChain p c b cs) : ∃ tail, cs = c :: tail := by
  cases h with
  | plain => exact ⟨[], rfl⟩
  | last => exact ⟨[], rfl⟩
  | next => exact ⟨_, rfl⟩

/-- Of a chain all commands but the last one have a link. -/
theorem wireChain_shape {p : Packet} {c : UInt8} {b : ℤ} {cs : List UInt8}
    (h : WireChain p c b cs) : ChainShape cs := by
  induction h with
  | plain => trivial
  | last => trivial
  | next hand _ _ hff _ _ htail ih =>
      obtain ⟨tail, rfl⟩ := wireChain_cons htail
      exact ⟨hand, hff, ih⟩

/-- A link names the next command, or `0xFF`. -/
theorem wireChain_successor {p : Packet} {c : UInt8} {b : ℤ} {cs : List UInt8}
    (h : WireChain p c b cs) (hand : smbprotoIsAndxCommand c = true) :
    p.mem (b + 1) = cs.getD 1 0xFF := by
  cases h with
  | plain hno => simp [hno] at hand
  | last _ _ _ hff => exact hff
  | next _ _ _ _ _ _ htail =>
      obtain ⟨tail, rfl⟩ := wireChain_cons htail
      rfl

/-! ## The commands of a run -/

/-- The walk goes on from a block in the packet where its link leads. -/
theorem v1Body_follows_packet {p : Packet} {isclient : Bool} {l : V1Locals} {c : UInt8}
    {offset : ℤ} {t : V1State} :
    Follows (v1Body p isclient l) ⟨c, .packet offset⟩ t ↔
      smbprotoIsAndxCommand c = true ∧ p.mem offset ≠ 0xFF ∧
        t = ⟨p.mem offset, .packet (hop p offset)⟩ := by
  rw [v1Body_follows_iff]
  simp only [v1NextOffset_eq, Packet.deref, Pointer.add, hop]

/-- A pass dispatches the command of its block. -/
theorem dispatched_v1Body (p : Packet) (isclient : Bool) (l : V1Locals) (s : V1State) :
    dispatched (v1Body p isclient l s).events = [s.nextCommand] := by
  rw [v1Body_events]
  unfold dispatched v1Call
  split <;> rfl

/-- The commands of one part of a walk, and those of the other. -/
theorem dispatched_append (es es' : List V1Event) :
    dispatched (es ++ es') = dispatched es ++ dispatched es' :=
  List.filterMap_append

/-- A loop that goes on dispatches one command more than from there. -/
theorem dispatched_of_follows {p : Packet} {isclient : Bool} {l : V1Locals} {s t : V1State}
    (h : Follows (v1Body p isclient l) s t) (n : ℕ) :
    dispatched (loop (v1Body p isclient l) (n + 1) s).events =
      s.nextCommand :: dispatched (loop (v1Body p isclient l) n t).events := by
  rw [loop_succ_of_follows h, dispatched_append, dispatched_v1Body]
  rfl

/-- A loop that ends at a block dispatches its command only. -/
theorem dispatched_of_exit {p : Packet} {isclient : Bool} {l : V1Locals} {s : V1State}
    (h : ∀ t, ¬ Follows (v1Body p isclient l) s t) (n : ℕ) :
    dispatched (loop (v1Body p isclient l) (n + 1) s).events = [s.nextCommand] := by
  rw [loop_succ_of_exit (v1Body_exit h), dispatched_v1Body]

/-- A finished run has dispatched at least the command it started with. -/
theorem dispatched_head {p : Packet} {isclient : Bool} {l : V1Locals} {s : V1State} {n : ℕ}
    (h : FinishesWithin (v1Body p isclient l) n s) :
    ∃ tail, dispatched (loop (v1Body p isclient l) n s).events = s.nextCommand :: tail := by
  cases n with
  | zero => exact absurd h (not_finishesWithin_zero s)
  | succ n =>
      rcases follows_or_exit (v1Body p isclient l) s with ⟨t, ht⟩ | ⟨v, hv⟩
      · exact ⟨_, dispatched_of_follows ht n⟩
      · rw [loop_succ_of_exit hv, dispatched_v1Body]
        exact ⟨[], rfl⟩

/-- **The run from one head.** It dispatches a list with the shape of a chain iff each
AndX command of the list finds its successor where the loop looks for it. -/
theorem loop_dispatches_iff {p : Packet} {isclient : Bool} {l : V1Locals} (rest : List UInt8)
    {c : UInt8} {offset : ℤ} (hshape : ChainShape (c :: rest)) :
    (∃ n, FinishesWithin (v1Body p isclient l) n ⟨c, .packet offset⟩ ∧
        dispatched (loop (v1Body p isclient l) n ⟨c, .packet offset⟩).events = c :: rest) ↔
      ∀ i (h : i < (c :: rest).length), smbprotoIsAndxCommand (c :: rest)[i] = true →
        p.mem ((hop p)^[i] offset) = (c :: rest).getD (i + 1) 0xFF := by
  induction rest generalizing c offset with
  | nil =>
      constructor
      · rintro ⟨n, hfin, hrun⟩ i hi hand
        obtain rfl : i = 0 := by simpa using hi
        by_contra hff
        have hfollows : Follows (v1Body p isclient l) ⟨c, .packet offset⟩
            ⟨p.mem offset, .packet (hop p offset)⟩ :=
          v1Body_follows_packet.mpr ⟨hand, hff, rfl⟩
        cases n with
        | zero => exact not_finishesWithin_zero _ hfin
        | succ n =>
            -- A second pass would dispatch a second command.
            obtain ⟨tail, htail⟩ :=
              dispatched_head ((finishesWithin_succ_of_follows hfollows).mp hfin)
            rw [dispatched_of_follows hfollows, htail] at hrun
            simp at hrun
      · intro h
        have hexit : ∀ t, ¬ Follows (v1Body p isclient l) ⟨c, .packet offset⟩ t := by
          intro t ht
          obtain ⟨hand, hff, -⟩ := v1Body_follows_packet.mp ht
          exact hff (h 0 (by simp) hand)
        exact ⟨1, finishesWithin_succ_of_exit (v1Body_exit hexit), dispatched_of_exit hexit 0⟩
  | cons c' cs ih =>
      obtain ⟨hand, hff, hshape'⟩ := hshape
      constructor
      · rintro ⟨n, hfin, hrun⟩
        cases n with
        | zero => exact absurd hfin (not_finishesWithin_zero _)
        | succ n =>
            rcases follows_or_exit (v1Body p isclient l) ⟨c, .packet offset⟩ with ⟨t, ht⟩ | ⟨v, hv⟩
            · obtain ⟨-, -, rfl⟩ := v1Body_follows_packet.mp ht
              rw [finishesWithin_succ_of_follows ht] at hfin
              rw [dispatched_of_follows ht] at hrun
              obtain ⟨tail, htail⟩ := dispatched_head hfin
              have hnext : p.mem offset = c' := by
                rw [htail] at hrun
                simp only [List.cons.injEq] at hrun
                exact hrun.2.1
              rw [hnext] at hfin hrun
              have hrest := (ih hshape').mp ⟨n, hfin, by simpa using hrun⟩
              intro i hi hi'
              cases i with
              | zero => exact hnext
              | succ i => exact hrest i (by simpa using hi) hi'
            · rw [loop_succ_of_exit hv, dispatched_v1Body] at hrun
              simp at hrun
      · intro h
        have hnext : p.mem offset = c' := h 0 (by simp) hand
        have hfollows : Follows (v1Body p isclient l) ⟨c, .packet offset⟩
            ⟨c', .packet (hop p offset)⟩ :=
          v1Body_follows_packet.mpr ⟨hand, hnext ▸ hff, by rw [hnext]⟩
        obtain ⟨n, hfin, hrun⟩ := (@ih c' (hop p offset) hshape').mpr
          fun i hi hi' => h (i + 1) (by simpa using hi) hi'
        exact ⟨n + 1, (finishesWithin_succ_of_follows hfollows).mpr hfin, by
          rw [dispatched_of_follows hfollows, hrun]⟩

/-! ## Messages -/

/-- The blocks of a chain are in the packet. -/
theorem wireChain_lt {p : Packet} {c : UInt8} {b : ℤ} {cs : List UInt8}
    (h : WireChain p c b cs) : b < p.bytes := by
  cases h <;> omega

/-- What a packet dispatches is what its loop does. -/
theorem dispatches_iff_loop {p : Packet} {isclient : Bool} {es : List V1Event} {l : V1Locals}
    {s : V1State} (henter : smbprotoV1Enter p = ⟨es, .inl (l, s)⟩) (hes : dispatched es = [])
    (cs : List UInt8) :
    Dispatches p isclient cs ↔ ∃ n, FinishesWithin (v1Body p isclient l) n s ∧
      dispatched (loop (v1Body p isclient l) n s).events = cs := by
  have hevents : ∀ n, dispatched (smbprotoV1Packet p isclient n).events =
      dispatched (loop (v1Body p isclient l) n s).events := by
    intro n
    unfold smbprotoV1Packet
    rw [henter]
    simp only [dispatched_append, hes, List.nil_append]
  unfold Dispatches
  simp only [v1Packet_result_isSome_iff henter, hevents]

/-- **The exact condition for dispatching a chain.** A well-formed message has exactly its
commands dispatched iff each AndX command behind the first finds its successor (`0xFF` at
the end) at the place the offsets lead to when they are read high byte first and taken as
the place of the AndX header. -/
theorem v1Packet_dispatches_iff (m : AndxMessage) (isclient : Bool) :
    Dispatches m.toPacket isclient m.commands ↔
      ∀ i (h : i < m.commands.length), 1 ≤ i → smbprotoIsAndxCommand m.commands[i] = true →
        m.mem ((hop m.toPacket)^[i] 33) = m.commands.getD (i + 1) 0xFF := by
  obtain ⟨rest, hrest⟩ := wireChain_cons m.chain
  have hshape := wireChain_shape m.chain
  have hfirst := wireChain_successor m.chain
  rw [dispatches_iff_loop (v1Enter_of_bytes_gt (wireChain_lt m.chain) m.magic) rfl]
  simp only [hrest] at hshape hfirst ⊢
  rw [loop_dispatches_iff rest hshape]
  constructor
  · intro h i hi _ hand
    exact h i hi hand
  · intro h i hi hand
    cases i with
    | zero => exact hfirst hand
    | succ i => exact h (i + 1) hi (by omega) hand

/-- A session setup followed by a tree connect, 257 bytes into the packet. The offset is
`01 01` in either byte order, and leads the loop to the WordCount byte. -/
def treeConnectPacket : Packet :=
  Packet.ofBytes (smb1Header 0x73 ++ [2, 0x75, 0, 1, 1] ++ List.replicate 220 0 ++
    [2, 0xFF, 0, 0, 0, 0, 0]) (by decide +kernel)

def treeConnectMessage : AndxMessage where
  toPacket := treeConnectPacket
  commands := [0x73, 0x75]
  magic := by decide
  chain := by
    have hsecond : WireChain treeConnectPacket 0x75 257 [0x75] :=
      .last rfl (by decide +kernel) (by decide +kernel) (by decide +kernel)
    exact .next rfl (by decide) (by decide +kernel) (by decide) (by decide) (by decide +kernel)
      hsecond

/-- **A well-formed chain of two AndX commands is not followed**: for the successor of
the tree connect the loop reads its WordCount 2. -/
theorem v1Packet_not_dispatches :
    ¬ ∀ (m : AndxMessage) (isclient : Bool), Dispatches m.toPacket isclient m.commands := by
  intro h
  have hrun := (dispatches_iff_loop
    (v1Enter_of_bytes_gt (wireChain_lt treeConnectMessage.chain) treeConnectMessage.magic)
    rfl _).mp (h treeConnectMessage true)
  have hshape : ChainShape [0x73, 0x75] := wireChain_shape treeConnectMessage.chain
  have hend := (loop_dispatches_iff [0x75] hshape).mp hrun 1 (by decide) (by decide)
  exact absurd hend (by decide +kernel)

end SmbProxy.Analysis
