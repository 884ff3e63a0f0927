import SmbProxy.Analysis.AndxWalk
import Mathlib.Tactic.SplitIfs

/-!
# When the AndX walk stays inside its packet

A region that the walk reads or hands to a handler is inside the packet when its length
is not negative and every one of its bytes has an index below `bytes` (`RegionInside`).
The lengths come out of unsigned subtractions that wrap, and are narrowed to `int`: both
are exact on these values, so a length that wrapped is negative (`dataBytes_eq`,
`andxParamBytes_eq`).

`v1Packet_inside_iff` is the exact condition: the first block's parameter words end
inside the packet, and every block of the chain leaves room for the words counted by the
first block, two bytes more when it is an AndX block.
-/

set_option autoImplicit false

namespace SmbProxy.Analysis

open SmbProxy.Library SmbProxy.Model

/-! ## Regions -/

/-- A region with a length that is not negative, all of whose bytes are in the packet. -/
def RegionInside (p : Packet) (ptr : Pointer) (n : ℤ) : Prop :=
  0 ≤ n ∧ ∀ i, 0 ≤ i → i < n → ∃ offset, ptr.add i = .packet offset ∧ 0 ≤ offset ∧ offset < p.bytes

/-- What the walk reads, and both regions of every call, are inside the packet. -/
def EventInside (p : Packet) : V1Event → Prop
  | .read ptr n => RegionInside p ptr n
  | .call c => RegionInside p c.params c.paramBytes ∧ RegionInside p c.data c.dataBytes

/-- A region of the packet is inside, if it ends there or has no bytes. -/
theorem regionInside_packet {p : Packet} {offset n : ℤ} (h0 : 0 ≤ offset) :
    RegionInside p (.packet offset) n ↔ 0 ≤ n ∧ (n = 0 ∨ offset + n ≤ p.bytes) := by
  unfold RegionInside
  refine and_congr_right fun hn => ⟨?_, ?_⟩
  · intro h
    by_cases hzero : n = 0
    · exact Or.inl hzero
    · obtain ⟨o, ho, -, hlast⟩ := h (n - 1) (by omega) (by omega)
      cases ho
      exact Or.inr (by omega)
  · intro h i hi hin
    exact ⟨offset + i, rfl, by omega, by omega⟩

/-- A region of the literal is inside, if it has no bytes. -/
theorem regionInside_literal {p : Packet} {offset n : ℤ} :
    RegionInside p (.literal offset) n ↔ n = 0 := by
  unfold RegionInside
  constructor
  · rintro ⟨hn, h⟩
    by_contra hne
    obtain ⟨o, ho, -⟩ := h 0 le_rfl (by omega)
    cases ho
  · rintro rfl
    exact ⟨le_rfl, fun i hi hlt => absurd hlt (not_lt.mpr hi)⟩

/-! ## The lengths -/

/-- The number of data bytes comes through its two conversions. -/
theorem dataBytes_eq (p : Packet) (h : 32 < p.bytes) :
    toInt32 (toUInt32 (p.bytes - 33 - (p.mem 32).toNat * 2)) =
      p.bytes - 33 - (p.mem 32).toNat * 2 := by
  have hlt := p.bytes_lt
  have hw := (p.mem 32).toNat_lt
  exact toInt32_toUInt32 (by omega) (by omega)

/-- So does the number of parameter bytes of an AndX block. -/
theorem andxParamBytes_eq (w : UInt8) :
    toInt32 (toUInt32 (((w.toNat : ℤ) - 1) * 2)) = (w.toNat - 1) * 2 := by
  have hw := w.toNat_lt
  exact toInt32_toUInt32 (by omega) (by omega)

/-- And that of any other block. -/
theorem paramBytes_eq (w : UInt8) :
    toInt32 (toUInt32 ((w.toNat : ℤ) * 2)) = w.toNat * 2 := by
  have hw := w.toNat_lt
  exact toInt32_toUInt32 (by omega) (by omega)

/-! ## The blocks of a packet -/

/-- The commands of a packet with the offsets of their parameters, as the loop takes
them: the header's command at 33, and behind an AndX command at `offset` the command
named there, at the two bytes of `offset + 2`, high byte first. -/
inductive AndxBlock (p : Packet) : UInt8 → ℤ → Prop
  | first : AndxBlock p (p.mem 4) 33
  | next {command : UInt8} {offset : ℤ} :
      AndxBlock p command offset → smbprotoIsAndxCommand command = true →
      p.mem offset ≠ 0xFF →
      AndxBlock p (p.mem offset)
        ((p.mem (offset + 2)).toNat * 2 ^ 8 + (p.mem (offset + 3)).toNat : ℕ)

/-- Blocks are not in front of the packet. -/
theorem andxBlock_nonneg {p : Packet} {command : UInt8} {offset : ℤ}
    (h : AndxBlock p command offset) : 0 ≤ offset := by
  cases h <;> omega

/-- The loop comes to the blocks of the packet, and only to them. -/
theorem heads_iff_andxBlock {p : Packet} {isclient : Bool} {l : V1Locals} {t : V1State} :
    Heads (v1Body p isclient l) ⟨p.mem 4, .packet 33⟩ t ↔
      ∃ command offset, t = ⟨command, .packet offset⟩ ∧ AndxBlock p command offset := by
  constructor
  · intro h
    refine loop_invariant
      (fun t => ∃ command offset, t = ⟨command, .packet offset⟩ ∧ AndxBlock p command offset)
      ?_ ⟨_, _, rfl, .first⟩ h
    rintro s t ⟨command, offset, rfl, hblock⟩ hst
    obtain ⟨hand, hff, rfl⟩ := v1Body_follows_iff.mp hst
    refine ⟨_, _, ?_, .next hblock hand hff⟩
    simp only [v1NextOffset_eq, Packet.deref, Pointer.add]
  · rintro ⟨command, offset, rfl, hblock⟩
    induction hblock with
    | first => exact .refl
    | next _ hand hff ih =>
        refine ih.tail (v1Body_follows_iff.mpr ⟨hand, hff, ?_⟩)
        simp only [v1NextOffset_eq, Packet.deref, Pointer.add]

/-- Room for the words counted at 32 behind an offset, and for two bytes more behind an
AndX header. -/
def BlockFits (p : Packet) (command : UInt8) (offset : ℤ) : Prop :=
  if smbprotoIsAndxCommand command then
    1 ≤ (p.mem 32).toNat ∧ offset + 2 + (p.mem 32).toNat * 2 ≤ p.bytes
  else (p.mem 32).toNat = 0 ∨ offset + (p.mem 32).toNat * 2 ≤ p.bytes

/-- **One pass** is inside the packet iff the words of the first block and those of the
current one are. -/
theorem pass_inside_iff {p : Packet} {isclient : Bool} (h : 32 < p.bytes) {command : UInt8}
    {offset : ℤ} (h0 : 0 ≤ offset) :
    (∀ e ∈ (v1Body p isclient
        ⟨(p.mem 32).toNat, toUInt32 (p.bytes - 33 - (p.mem 32).toNat * 2),
          .packet (33 + (p.mem 32).toNat * 2)⟩ ⟨command, .packet offset⟩).events,
        EventInside p e) ↔
      33 + (p.mem 32).toNat * 2 ≤ p.bytes ∧ BlockFits p command offset := by
  rw [v1Body_events]
  unfold BlockFits v1Call
  by_cases hand : smbprotoIsAndxCommand command = true
  · simp only [hand, if_true, List.forall_mem_cons, List.not_mem_nil, false_implies, implies_true,
      and_true, EventInside, Pointer.add, andxParamBytes_eq, dataBytes_eq p h]
    rw [regionInside_packet (by omega), regionInside_packet (by omega),
      regionInside_packet h0, regionInside_packet (by omega), regionInside_packet (by omega)]
    omega
  · simp only [hand, Bool.false_eq_true, if_false, List.forall_mem_cons, List.not_mem_nil,
      false_implies, implies_true, and_true, EventInside, paramBytes_eq, dataBytes_eq p h]
    rw [regionInside_packet h0, regionInside_packet (by omega)]
    omega

/-! ## Whole walks -/

/-- What holds of all events of a packet holds at the start and at every block. -/
theorem forall_v1Packet_events_iff {p : Packet} {isclient : Bool} {es : List V1Event}
    {l : V1Locals} {s : V1State} (henter : smbprotoV1Enter p = ⟨es, .inl (l, s)⟩)
    (P : V1Event → Prop) :
    (∀ fuel, ∀ e ∈ (smbprotoV1Packet p isclient fuel).events, P e) ↔
      (∀ e ∈ es, P e) ∧
        ∀ t, Heads (v1Body p isclient l) s t → ∀ e ∈ (v1Body p isclient l t).events, P e := by
  have hevents : ∀ fuel, (smbprotoV1Packet p isclient fuel).events =
      es ++ (loop (v1Body p isclient l) fuel s).events := by
    intro fuel
    unfold smbprotoV1Packet
    rw [henter]
  simp only [hevents, List.forall_mem_append]
  constructor
  · intro h
    refine ⟨(h 0).1, fun t ht e he => ?_⟩
    obtain ⟨fuel, hfuel⟩ := mem_loop_events_iff.mpr ⟨t, ht, he⟩
    exact (h fuel).2 e hfuel
  · rintro ⟨hes, hheads⟩ fuel
    refine ⟨hes, fun e he => ?_⟩
    obtain ⟨t, ht, het⟩ := mem_loop_events_iff.mp ⟨fuel, he⟩
    exact hheads t ht e het

/-- The walk of this packet has room everywhere: without parameters it is not an AndX
command's, and with parameters the first block's words end inside the packet and every
block fits. -/
def V1Fits (p : Packet) : Prop :=
  if p.bytes = 32 then smbprotoIsAndxCommand (p.mem 4) = false
  else
    33 + (p.mem 32).toNat * 2 ≤ p.bytes ∧
      ∀ command offset, AndxBlock p command offset → BlockFits p command offset

/-- A packet without parameters: the call of an AndX command has a negative length. -/
theorem noParams_inside_iff {p : Packet} {isclient : Bool} :
    (∀ t, Heads (v1Body p isclient ⟨0, 0, .packet 32⟩) ⟨p.mem 4, .literal 0⟩ t →
        ∀ e ∈ (v1Body p isclient ⟨0, 0, .packet 32⟩ t).events, EventInside p e) ↔
      smbprotoIsAndxCommand (p.mem 4) = false := by
  constructor
  · intro hinside
    by_contra hne
    have hand : smbprotoIsAndxCommand (p.mem 4) = true := by simpa using hne
    have hcall := hinside _ .refl (.call (v1Call ⟨0, 0, .packet 32⟩ ⟨p.mem 4, .literal 0⟩))
      (by rw [v1Body_events]; exact List.mem_cons_self)
    simp only [v1Call, hand, if_true, EventInside, RegionInside] at hcall
    have hneg : (0 : ℤ) ≤ toInt32 (toUInt32 ((0 - 1) * 2)) := hcall.1.1
    exact absurd hneg (by decide)
  · intro hand t ht e he
    -- A command that is not AndX makes its one call and leaves.
    have ht' : t = ⟨p.mem 4, .literal 0⟩ := by
      rcases Relation.ReflTransGen.cases_head ht with heq | ⟨u, hu, -⟩
      · exact heq.symm
      · have hyes := (v1Body_follows_iff.mp hu).1
        simp [hand] at hyes
    subst ht'
    rw [v1Body_events] at he
    simp only [v1Call, hand, Bool.false_eq_true, if_false, List.mem_singleton] at he
    subst he
    exact ⟨regionInside_literal.mpr rfl,
      (regionInside_packet (by omega)).mpr ⟨le_of_eq rfl, Or.inl rfl⟩⟩

/-- **The exact condition for staying inside.** All that `smbproto_v1_packet` reads and
hands over on a packet lies inside it iff the packet is rejected before the loop or
`V1Fits`. -/
theorem v1Packet_inside_iff (p : Packet) (isclient : Bool) :
    (∀ fuel, ∀ e ∈ (smbprotoV1Packet p isclient fuel).events, EventInside p e) ↔
      (32 ≤ p.bytes → window p.mem 0 4 = smb1Magic → V1Fits p) := by
  by_cases hlen : 32 ≤ p.bytes
  · have hheader : EventInside p (.read (.packet 0) 32) :=
      (regionInside_packet le_rfl).mpr ⟨by omega, Or.inr (by omega)⟩
    by_cases hmagic : window p.mem 0 4 = smb1Magic
    · simp only [hlen, hmagic, forall_true_left]
      unfold V1Fits
      by_cases heq : p.bytes = 32
      · rw [forall_v1Packet_events_iff (v1Enter_of_bytes_eq heq hmagic), if_pos heq,
          noParams_inside_iff]
        simp [hheader]
      · have hlt : 32 < p.bytes := by omega
        rw [forall_v1Packet_events_iff (v1Enter_of_bytes_gt hlt hmagic), if_neg (by omega)]
        have hcount : EventInside p (.read (.packet 32) 1) :=
          (regionInside_packet (by omega)).mpr ⟨by omega, Or.inr (by omega)⟩
        simp only [List.forall_mem_cons, hheader, hcount, List.not_mem_nil, false_implies,
          implies_true, and_true, true_and]
        constructor
        · intro h
          refine ⟨((pass_inside_iff hlt (by omega)).mp (h _ .refl)).1, fun command offset hb => ?_⟩
          have hpass := h _ (heads_iff_andxBlock.mpr ⟨command, offset, rfl, hb⟩)
          exact ((pass_inside_iff hlt (andxBlock_nonneg hb)).mp hpass).2
        · rintro ⟨hwords, hfits⟩ t ht
          obtain ⟨command, offset, rfl, hb⟩ := heads_iff_andxBlock.mp ht
          exact (pass_inside_iff hlt (andxBlock_nonneg hb)).mpr ⟨hwords, hfits _ _ hb⟩
    · have hevents : ∀ fuel, (smbprotoV1Packet p isclient fuel).events = [.read (.packet 0) 32] := by
        intro fuel
        simp [smbprotoV1Packet, smbprotoV1Enter, not_lt.mpr hlen, hmagic]
      simp [hevents, hmagic, hheader]
  · have hevents : ∀ fuel, (smbprotoV1Packet p isclient fuel).events = [] := by
      intro fuel
      simp [smbprotoV1Packet, smbprotoV1Enter, not_le.mp hlen]
    simp [hevents, hlen]

/-- A negotiate message that announces 255 parameter words and ends there. -/
def overcountedPacket : Packet := Packet.ofBytes (smb1Header 0x72 ++ [0xFF]) (by decide)

/-- **Not every walk stays inside**: the data length of `overcountedPacket` is -510. -/
theorem v1Packet_not_inside :
    ¬ ∀ (p : Packet) (isclient : Bool) (fuel : ℕ),
      ∀ e ∈ (smbprotoV1Packet p isclient fuel).events, EventInside p e := by
  intro h
  have hcall := h overcountedPacket true 1
    (.call ⟨0x72, .packet 33, 510, .packet 543, -510⟩) (by decide)
  exact absurd hcall.2.1 (by decide)

end SmbProxy.Analysis
