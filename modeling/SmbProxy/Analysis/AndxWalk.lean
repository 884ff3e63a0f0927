import SmbProxy.Library.Chain
import SmbProxy.Model.Smb

/-!
# When the AndX walk ends

A pass of the AndX loop goes on exactly when the current command is an AndX command and
the byte at `params` is not `0xFF`; the next head then has that byte as its command and
the offset after it as its parameter block (`v1Body_follows_iff`). The walk through the
packet is therefore the chain of `andxNext`, the links between blocks that themselves
name an AndX command.

An offset has 16 bits, so all links lead into a set of `2 ^ 16` blocks, and the walk
ends iff the chain from the first block meets no cycle (`v1Packet_ends_iff`). Then it
ends within `andxPasses` passes, whatever the length of the packet.
-/

set_option autoImplicit false

namespace SmbProxy.Analysis

open SmbProxy.Library SmbProxy.Model

/-! ## The way into the loop -/

/-- A packet of 32 bytes has no parameter block: the empty string stands in for it. -/
theorem v1Enter_of_bytes_eq {p : Packet} (h : p.bytes = 32)
    (hmagic : window p.mem 0 4 = smb1Magic) :
    smbprotoV1Enter p =
      ⟨[.read (.packet 0) 32], .inl (⟨0, 0, .packet 32⟩, ⟨p.mem 4, .literal 0⟩)⟩ := by
  have hcount : toUInt32 (toUInt32 32 - 32) = 0 := by decide
  unfold smbprotoV1Enter
  simp [h, hmagic, hcount]

/-- With a header and a byte behind it, the walk starts at the first block. -/
theorem v1Enter_of_bytes_gt {p : Packet} (h : 32 < p.bytes)
    (hmagic : window p.mem 0 4 = smb1Magic) :
    smbprotoV1Enter p =
      ⟨[.read (.packet 0) 32, .read (.packet 32) 1],
        .inl (⟨(p.mem 32).toNat, toUInt32 (p.bytes - 33 - (p.mem 32).toNat * 2),
          .packet (33 + (p.mem 32).toNat * 2)⟩, ⟨p.mem 4, .packet 33⟩)⟩ := by
  have hlt := p.bytes_lt
  have hcount : toUInt32 (toUInt32 p.bytes - 32) = p.bytes - 32 := by
    rw [toUInt32_sub_toUInt32, toUInt32_of_range (by omega) (by omega)]
  have hrest : toUInt32 (toUInt32 (p.bytes - 32 - 1) - (p.mem 32).toNat * 2) =
      toUInt32 (p.bytes - 33 - (p.mem 32).toNat * 2) := by
    rw [toUInt32_sub_toUInt32]
    congr 1
    ring
  unfold smbprotoV1Enter
  simp [not_lt.mpr h.le, hmagic, hcount, hrest, sub_eq_zero, h.ne']

/-- The call returns if the loop over the blocks does. -/
theorem v1Packet_result_isSome_iff {p : Packet} {isclient : Bool} {es : List V1Event}
    {l : V1Locals} {s : V1State} (henter : smbprotoV1Enter p = ⟨es, .inl (l, s)⟩) (fuel : ℕ) :
    (smbprotoV1Packet p isclient fuel).result.isSome = true ↔
      FinishesWithin (v1Body p isclient l) fuel s := by
  unfold smbprotoV1Packet FinishesWithin
  rw [henter]
  cases hnext : (loop (v1Body p isclient l) fuel s).next <;> simp [hnext]

/-! ## One pass -/

/-- `0xFF` goes on to no block. -/
@[simp] theorem isAndx_ff : smbprotoIsAndxCommand 0xFF = false := by decide

/-- 0 goes on to no block. -/
@[simp] theorem isAndx_zero : smbprotoIsAndxCommand 0 = false := by decide

/-- **Where a pass goes.** -/
theorem v1Body_follows_iff {p : Packet} {isclient : Bool} {l : V1Locals} {s t : V1State} :
    Follows (v1Body p isclient l) s t ↔
      smbprotoIsAndxCommand s.nextCommand = true ∧ p.deref s.params ≠ 0xFF ∧
        t = ⟨p.deref s.params, .packet (v1NextOffset p s.params)⟩ := by
  unfold Follows v1Body
  by_cases hand : smbprotoIsAndxCommand s.nextCommand = true
  · by_cases hff : p.deref s.params = 0xFF
    · simp [hand, hff]
    · simp [hand, hff, eq_comm]
  · simp [hand]

/-- A pass that goes on to no block leaves the loop with 0. -/
theorem v1Body_exit {p : Packet} {isclient : Bool} {l : V1Locals} {s : V1State}
    (h : ∀ t, ¬ Follows (v1Body p isclient l) s t) : (v1Body p isclient l s).next = .inr 0 := by
  unfold Follows at h
  unfold v1Body at h ⊢
  by_cases hand : smbprotoIsAndxCommand s.nextCommand = true
  · by_cases hff : p.deref s.params = 0xFF
    · simp [hand, hff]
    · simp [hand, hff] at h
  · simp [hand]

/-- A pass calls a handler, and reads the link if there is one. -/
theorem v1Body_events {p : Packet} {isclient : Bool} {l : V1Locals} {s : V1State} :
    (v1Body p isclient l s).events =
      .call (v1Call l s) ::
        if smbprotoIsAndxCommand s.nextCommand then
          [.read s.params 1, .read (s.params.add 2) 1, .read (s.params.add 3) 1]
        else [] := by
  unfold v1Body
  by_cases hand : smbprotoIsAndxCommand s.nextCommand = true
  · by_cases hff : p.deref s.params = 0xFF <;> simp [hand, hff]
  · simp [hand]

/-- A block that is no AndX block is the last one. -/
theorem finishes_of_not_andx {p : Packet} {isclient : Bool} {l : V1Locals} {s : V1State}
    (h : smbprotoIsAndxCommand s.nextCommand = false) (n : ℕ) :
    FinishesWithin (v1Body p isclient l) (n + 1) s := by
  refine finishesWithin_succ_of_exit (v1Body_exit ?_)
  intro t ht
  rw [v1Body_follows_iff, h] at ht
  exact Bool.false_ne_true ht.1

/-! ## The chain of AndX blocks -/

/-- The link of the block at `params`, if the command it names is again an AndX command. -/
def andxNext (p : Packet) (params : Pointer) : Option Pointer :=
  if smbprotoIsAndxCommand (p.deref params) then some (.packet (v1NextOffset p params)) else none

/-- The blocks an offset of 16 bits can lead to. -/
def linkTargets : Finset Pointer :=
  (Finset.range (2 ^ 16)).image fun n : ℕ => Pointer.packet n

/-- There are at most 2^16 places that a link can lead to. -/
theorem linkTargets_card_le : linkTargets.card ≤ 2 ^ 16 := calc
  linkTargets.card ≤ (Finset.range (2 ^ 16)).card := Finset.card_image_le
  _ = 2 ^ 16 := Finset.card_range _

/-- An offset is two bytes, the first one the higher. -/
theorem v1NextOffset_eq (p : Packet) (params : Pointer) :
    v1NextOffset p params =
      (p.deref (params.add 2)).toNat * 2 ^ 8 + (p.deref (params.add 3)).toNat :=
  shift_or_eq _ _

/-- It has 16 bits. -/
theorem v1NextOffset_lt (p : Packet) (params : Pointer) : v1NextOffset p params < 2 ^ 16 := by
  have h2 := (p.deref (params.add 2)).toNat_lt
  have h3 := (p.deref (params.add 3)).toNat_lt
  rw [v1NextOffset_eq]
  omega

/-- Every link leads to one of these places. -/
theorem andxNext_mem (p : Packet) (a b : Pointer) (h : andxNext p a = some b) :
    b ∈ linkTargets := by
  unfold andxNext at h
  split at h
  · cases h
    exact Finset.mem_image.mpr
      ⟨v1NextOffset p a, Finset.mem_range.mpr (v1NextOffset_lt p a), rfl⟩
  · cases h

/-- From a block with a link the walk goes on to the one it leads to. -/
theorem follows_of_andxNext {p : Packet} {isclient : Bool} {l : V1Locals} {s : V1State}
    {b : Pointer} (hs : smbprotoIsAndxCommand s.nextCommand = true)
    (h : andxNext p s.params = some b) :
    Follows (v1Body p isclient l) s ⟨p.deref s.params, b⟩ ∧
      smbprotoIsAndxCommand (p.deref s.params) = true := by
  unfold andxNext at h
  split at h
  · rename_i hand
    cases h
    refine ⟨v1Body_follows_iff.mpr ⟨hs, ?_, rfl⟩, hand⟩
    intro hff
    rw [hff, isAndx_ff] at hand
    cases hand
  · cases h

/-- A chain that stops within `n` links is walked in `n + 1` passes. -/
theorem finishes_of_chain_stops {p : Packet} {isclient : Bool} {l : V1Locals} (n : ℕ)
    {s : V1State} (hs : smbprotoIsAndxCommand s.nextCommand = true)
    (h : follow (andxNext p) n s.params = none) :
    FinishesWithin (v1Body p isclient l) (n + 1) s := by
  induction n generalizing s with
  | zero => simp at h
  | succ n ih =>
      cases hnext : andxNext p s.params with
      | some b =>
          obtain ⟨hfollows, hand⟩ := @follows_of_andxNext p isclient l s b hs hnext
          rw [follow_succ, hnext, Option.bind_some] at h
          rw [finishesWithin_succ_of_follows hfollows]
          exact ih hand h
      | none =>
          -- The next command is no AndX command: one more pass at most.
          have hand : smbprotoIsAndxCommand (p.deref s.params) = false := by
            simpa [andxNext] using hnext
          rcases follows_or_exit (v1Body p isclient l) s with ⟨t, ht⟩ | ⟨v, hv⟩
          · rw [finishesWithin_succ_of_follows ht]
            obtain ⟨-, -, rfl⟩ := v1Body_follows_iff.mp ht
            exact finishes_of_not_andx hand n
          · exact finishesWithin_succ_of_exit hv

/-- A chain of `n` links keeps the walk busy for `n` passes. -/
theorem not_finishes_of_chain {p : Packet} {isclient : Bool} {l : V1Locals} (n : ℕ)
    {s : V1State} (hs : smbprotoIsAndxCommand s.nextCommand = true)
    (h : (follow (andxNext p) n s.params).isSome) :
    ¬ FinishesWithin (v1Body p isclient l) n s := by
  induction n generalizing s with
  | zero => exact not_finishesWithin_zero s
  | succ n ih =>
      rw [follow_succ] at h
      cases hnext : andxNext p s.params with
      | none => simp [hnext] at h
      | some b =>
          obtain ⟨hfollows, hand⟩ := @follows_of_andxNext p isclient l s b hs hnext
          rw [hnext, Option.bind_some] at h
          rw [finishesWithin_succ_of_follows hfollows]
          exact ih hand h

/-! ## The walk -/

/-- More passes than there are blocks to visit, with one for the first block and one
for a last command that is no AndX command. -/
def andxPasses : ℕ := 2 ^ 16 + 2

/-- The chain of AndX blocks that starts at the packet's parameter block comes back to
one of its blocks. -/
def AndxCycle (p : Packet) : Prop :=
  32 < p.bytes ∧ smbprotoIsAndxCommand (p.mem 4) = true ∧ Cyclic (andxNext p) (.packet 33)

/-- **The loop ends** iff the links from its block have no cycle, and then soon. -/
theorem v1Body_ends_iff {p : Packet} {isclient : Bool} {l : V1Locals} {s : V1State} :
    (FinishesWithin (v1Body p isclient l) andxPasses s ↔
      ¬ (smbprotoIsAndxCommand s.nextCommand = true ∧ Cyclic (andxNext p) s.params)) ∧
    ((∃ fuel, FinishesWithin (v1Body p isclient l) fuel s) ↔
      ¬ (smbprotoIsAndxCommand s.nextCommand = true ∧ Cyclic (andxNext p) s.params)) := by
  have hstop : ¬ (smbprotoIsAndxCommand s.nextCommand = true ∧ Cyclic (andxNext p) s.params) →
      FinishesWithin (v1Body p isclient l) andxPasses s := by
    intro hno
    by_cases hs : smbprotoIsAndxCommand s.nextCommand = true
    · refine finishes_of_chain_stops (2 ^ 16 + 1) hs ?_
      rw [follow_eq_none_iff_not_cyclic (andxNext p) linkTargets (andxNext_mem p)
        (Nat.lt_succ_of_le linkTargets_card_le)]
      exact fun hc => hno ⟨hs, hc⟩
    · exact finishes_of_not_andx (by simpa using hs) _
  have hgo : (∃ fuel, FinishesWithin (v1Body p isclient l) fuel s) →
      ¬ (smbprotoIsAndxCommand s.nextCommand = true ∧ Cyclic (andxNext p) s.params) := by
    rintro ⟨fuel, hfuel⟩ ⟨hs, hc⟩
    exact not_finishes_of_chain fuel hs (follow_isSome_of_cyclic _ hc fuel) hfuel
  exact ⟨⟨fun h => hgo ⟨_, h⟩, hstop⟩, ⟨hgo, fun h => ⟨_, hstop h⟩⟩⟩

/-- **The walk of a packet ends iff its AndX blocks form no cycle**, and then within a
number of passes that is the same for all packets. -/
theorem v1Packet_ends_iff (p : Packet) (isclient : Bool) (hlen : 32 ≤ p.bytes)
    (hmagic : window p.mem 0 4 = smb1Magic) :
    ((smbprotoV1Packet p isclient andxPasses).result.isSome = true ↔ ¬ AndxCycle p) ∧
      ((∃ fuel, (smbprotoV1Packet p isclient fuel).result.isSome = true) ↔ ¬ AndxCycle p) := by
  by_cases heq : p.bytes = 32
  · -- The empty string names command 0, so a packet without parameters has no links.
    have hnext : andxNext p (.literal 0) = none := by
      simp [andxNext, Packet.deref, p.literal_nul]
    have hacyclic : ¬ Cyclic (andxNext p) (.literal 0) := by
      intro hc
      have := follow_isSome_of_cyclic _ hc 1
      simp [follow_succ, hnext] at this
    have hends := @v1Body_ends_iff p isclient ⟨0, 0, .packet 32⟩ ⟨p.mem 4, .literal 0⟩
    simp only [v1Packet_result_isSome_iff (v1Enter_of_bytes_eq heq hmagic), hends.1, hends.2,
      AndxCycle, heq, lt_irrefl, false_and, hacyclic, and_false, not_false_iff, and_self]
  · have hlt : 32 < p.bytes := by omega
    simp only [v1Packet_result_isSome_iff (v1Enter_of_bytes_gt hlt hmagic), v1Body_ends_iff.1,
      v1Body_ends_iff.2, AndxCycle, hlt, true_and, and_self]

/-- Two blocks, the second of which is the last. -/
theorem v1Packet_ends_iff_two_blocks :
    let p := Packet.ofBytes (smb1Header smbComSessionSetupAndx ++
      [2, smbComTreeConnectAndx, 0, 0, 37, 0xFF, 0, 0, 0]) (by decide)
    ¬ AndxCycle p ∧ (smbprotoV1Packet p true andxPasses).result.isSome = true := by
  intro p
  have hends := v1Packet_ends_iff p true (by decide) (by decide)
  have hrun : (smbprotoV1Packet p true 2).result.isSome = true := by decide
  have hacyclic := hends.2.mp ⟨2, hrun⟩
  exact ⟨hacyclic, hends.1.mpr hacyclic⟩

/-- A block whose link leads back to itself. -/
def selfLinkedPacket : Packet :=
  Packet.ofBytes (smb1Header smbComLockingAndx ++ [2, smbComLockingAndx, 0, 0, 33, 0, 0]) (by decide)

/-- **No bound on the passes holds for all packets**: the walk of `selfLinkedPacket`
does not end. -/
theorem v1Packet_no_bound :
    ¬ ∃ bound : ℤ → ℕ, ∀ (p : Packet) (isclient : Bool), 32 ≤ p.bytes →
      window p.mem 0 4 = smb1Magic →
      (smbprotoV1Packet p isclient (bound p.bytes)).result.isSome = true := by
  rintro ⟨bound, hbound⟩
  have hself : andxNext selfLinkedPacket (.packet 33) = some (.packet 33) := by decide
  have hcycle : Cyclic (andxNext selfLinkedPacket) (.packet 33) :=
    ⟨0, .packet 33, rfl, 1, Nat.one_pos, by rw [follow_succ, hself]; rfl⟩
  have hrun := hbound selfLinkedPacket true (by decide) (by decide)
  rw [v1Packet_result_isSome_iff
    (@v1Enter_of_bytes_gt selfLinkedPacket (by decide) (by decide))] at hrun
  exact (v1Body_ends_iff.2.mp ⟨_, hrun⟩) ⟨by decide, hcycle⟩

end SmbProxy.Analysis
