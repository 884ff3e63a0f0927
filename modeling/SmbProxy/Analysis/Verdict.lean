import SmbProxy.Analysis.HandlerCalls

/-!
# What `smbproto_packet` accepts

A call of `smbproto_packet` ends in one of three ways (`packet_decides`): it returns 0, it
returns -1, or it does not return. It returns 0 on an SMB1 message with a complete header and
AndX blocks that form no cycle, whatever else is in it, and on an SMB2 message with a complete
first header whose elements all have the magic; their headers are looked for where the one before
says, also behind the end of the packet. It does not return on an SMB1 message with
a cycle, nor on a message without the first byte of SMB1 whose elements never come to an end.
None of this depends on the direction.
-/

set_option autoImplicit false

namespace SmbProxy.Analysis

open SmbProxy.Library SmbProxy.Model SmbProxy.Interface

/-- An SMB1 header, behind which the AndX blocks come to an end. -/
def Smb1Message (p : Packet) : Prop :=
  32 ≤ p.bytes ∧ window p.mem 0 4 = smb1Magic ∧ ¬ AndxCycle p

/-- A chain of elements that each begin with the magic of SMB2. The first has its header in the
packet; of the others it is not asked, only that the memory where they are said to be has the
magic. -/
def Smb2Message (p : Packet) : Prop :=
  64 ≤ p.bytes ∧ ∃ os, Compound p 0 os ∧ ∀ o ∈ os, HasMagic p o

/-- The blocks of an SMB1 message form a cycle, or the elements of another one never end. -/
def Endless (p : Packet) : Prop :=
  (32 ≤ p.bytes ∧ window p.mem 0 4 = smb1Magic ∧ AndxCycle p) ∨
    (64 ≤ p.bytes ∧ p.mem 0 ≠ 0xFF ∧ ∀ os, ¬ Compound p 0 os)

section Verdict

variable {p : Packet} {isclient : Bool}

/-! ## SMB1 -/

/-- The magic of SMB2 begins with `0xFE`. -/
theorem mem_zero_of_hasMagic (h : HasMagic p 0) : p.mem 0 = 0xFE := by
  have hhead := congrArg List.head? (show window p.mem 0 4 = smb2Magic from h)
  simpa [window, smb2Magic, List.range_succ] using hhead

/-- With a header of SMB1 the walk starts, and does not come to its end where the blocks form a
cycle. -/
theorem v1Enter_of_header (hlen : 32 ≤ p.bytes) (hmagic : window p.mem 0 4 = smb1Magic) :
    ∃ es l s, smbprotoV1Enter p = ⟨es, .inl (l, s)⟩ ∧
      (AndxCycle p ↔ smbprotoIsAndxCommand s.nextCommand = true ∧ Cyclic (andxNext p) s.params) := by
  by_cases heq : p.bytes = 32
  · refine ⟨_, _, _, v1Enter_of_bytes_eq heq hmagic, ?_⟩
    have hnext : andxNext p (.literal 0) = none := by
      simp [andxNext, Packet.deref, p.literal_nul]
    have hacyclic : ¬ Cyclic (andxNext p) (.literal 0) := by
      intro hc
      have hgoes := follow_isSome_of_cyclic _ hc 1
      simp [follow_succ, hnext] at hgoes
    simp [AndxCycle, heq, hacyclic]
  · have hlt : 32 < p.bytes := by omega
    refine ⟨_, _, _, v1Enter_of_bytes_gt hlt hmagic, ?_⟩
    simp [AndxCycle, hlt]

/-- With a header of SMB1 the call returns 0, unless the blocks form a cycle. -/
theorem v1Packet_returns_iff (hlen : 32 ≤ p.bytes) (hmagic : window p.mem 0 4 = smb1Magic) :
    (∃ fuel, (smbprotoV1Packet p isclient fuel).result = some 0) ↔ ¬ AndxCycle p := by
  obtain ⟨es, l, s, henter, hcycle⟩ := v1Enter_of_header hlen hmagic
  rw [hcycle, ← (@v1Body_ends_iff p isclient l s).2]
  refine exists_congr fun fuel => ?_
  rw [← v1Packet_result_isSome_iff henter]
  refine ⟨fun h => ?_, fun h => ?_⟩
  · rw [h]
    rfl
  · obtain ⟨r, hr⟩ := Option.isSome_iff_exists.mp h
    rw [hr, v1Packet_result_zero hlen hmagic hr]

/-- Without one it returns -1. -/
theorem v1Packet_of_no_header (h : ¬ (32 ≤ p.bytes ∧ window p.mem 0 4 = smb1Magic)) (fuel : ℕ) :
    (smbprotoV1Packet p isclient fuel).result = some (-1) := by
  unfold smbprotoV1Packet smbprotoV1Enter
  by_cases hlen : p.bytes < 32
  · simp [hlen]
  · have hmagic : window p.mem 0 4 ≠ smb1Magic := fun hmagic => h ⟨not_lt.mp hlen, hmagic⟩
    simp [hlen, hmagic]

/-! ## SMB2 -/

/-- A chain that ends is accepted if every element has the magic. -/
theorem v2Packet_of_compound (hlen : 64 ≤ p.bytes) {os : List ℤ} (h : Compound p 0 os) {fuel : ℕ}
    (hfuel : os.length ≤ fuel) :
    (smbprotoV2Packet p fuel).result = some (if ∀ o ∈ os, HasMagic p o then 0 else -1) := by
  rw [smbprotoV2Packet_of_le hlen]
  dsimp only
  rw [(loop_walks h (toUInt32 p.bytes) hfuel).2]
  rfl

/-- A walk that has returned has come to the end of the elements. -/
theorem compound_of_result (hlen : 64 ≤ p.bytes) {fuel : ℕ} {r : ℤ}
    (h : (smbprotoV2Packet p fuel).result = some r) :
    ∃ os, Compound p 0 os ∧ r = if ∀ o ∈ os, HasMagic p o then 0 else -1 := by
  have hfinish : FinishesWithin (v2Body p) fuel ⟨0, toUInt32 p.bytes⟩ := by
    rw [smbprotoV2Packet_of_le hlen] at h
    unfold FinishesWithin
    cases hnext : (loop (v2Body p) fuel ⟨0, toUInt32 p.bytes⟩).next with
    | inl t => simp [hnext] at h
    | inr v => exact ⟨v, rfl⟩
  obtain ⟨os, hos, hlength⟩ := compound_of_finishes hfinish
  refine ⟨os, hos, ?_⟩
  rw [v2Packet_of_compound hlen hos hlength] at h
  exact (Option.some.injEq _ _ ▸ h).symm

/-! ## Either protocol -/

/-- `smbproto_packet` returns this value. -/
def Returns (p : Packet) (isclient : Bool) (r : ℤ) : Prop :=
  ∃ fuel, (smbprotoPacket p isclient fuel).result = some r

/-- What begins with `0xFF` is no message of SMB2. -/
theorem not_smb2Message_of_ff (hff : p.mem 0 = 0xFF) : ¬ Smb2Message p := by
  rintro ⟨-, os, hos, hall⟩
  have hmagic : HasMagic p 0 := by
    cases hos with
    | last hmagic => exact hmagic
    | noMagic hno => exact hall 0 List.mem_cons_self
    | next hmagic => exact hmagic
  rw [mem_zero_of_hasMagic hmagic] at hff
  cases hff

/-- What does not begin with `0xFF` is no message of SMB1. -/
theorem not_smb1_of_not_ff (hff : p.mem 0 ≠ 0xFF) : window p.mem 0 4 ≠ smb1Magic :=
  fun hmagic => hff (mem_zero_of_magic hmagic)

/-- The verdict on a packet that starts with `0xFF`. -/
theorem returns_of_ff (hlen : 1 ≤ p.bytes) (hff : p.mem 0 = 0xFF) (r : ℤ) :
    Returns p isclient r ↔ (r = 0 ∧ Smb1Message p) ∨
      (r = -1 ∧ ¬ (32 ≤ p.bytes ∧ window p.mem 0 4 = smb1Magic)) := by
  unfold Returns
  simp only [smbprotoPacket_of_v1 hlen hff]
  by_cases hheader : 32 ≤ p.bytes ∧ window p.mem 0 4 = smb1Magic
  · obtain ⟨hbytes, hmagic⟩ := hheader
    constructor
    · rintro ⟨fuel, h⟩
      obtain rfl := v1Packet_result_zero hbytes hmagic h
      exact Or.inl ⟨rfl, hbytes, hmagic, (v1Packet_returns_iff hbytes hmagic).mp ⟨fuel, h⟩⟩
    · rintro (⟨rfl, -, -, hacyclic⟩ | ⟨-, hno⟩)
      · exact (v1Packet_returns_iff hbytes hmagic).mpr hacyclic
      · exact absurd ⟨hbytes, hmagic⟩ hno
  · simp only [v1Packet_of_no_header hheader, Option.some.injEq, exists_const]
    constructor
    · intro h
      exact Or.inr ⟨h.symm, hheader⟩
    · rintro (⟨-, hbytes, hmagic, -⟩ | ⟨rfl, -⟩)
      · exact absurd ⟨hbytes, hmagic⟩ hheader
      · rfl

/-- The verdict on any other packet. -/
theorem returns_of_not_ff (hlen : 1 ≤ p.bytes) (hff : p.mem 0 ≠ 0xFF) (r : ℤ) :
    Returns p isclient r ↔ (r = 0 ∧ Smb2Message p) ∨
      (r = -1 ∧ (p.bytes < 64 ∨ ∃ os, Compound p 0 os ∧ ¬ ∀ o ∈ os, HasMagic p o)) := by
  unfold Returns
  simp only [smbprotoPacket_of_v2 hlen hff]
  by_cases hbytes : 64 ≤ p.bytes
  · constructor
    · rintro ⟨fuel, h⟩
      obtain ⟨os, hos, rfl⟩ := compound_of_result hbytes h
      by_cases hall : ∀ o ∈ os, HasMagic p o
      · exact Or.inl ⟨if_pos hall, hbytes, os, hos, hall⟩
      · exact Or.inr ⟨if_neg hall, Or.inr ⟨os, hos, hall⟩⟩
    · rintro (⟨rfl, -, os, hos, hall⟩ | ⟨rfl, hshort | ⟨os, hos, hno⟩⟩)
      · exact ⟨os.length, by rw [v2Packet_of_compound hbytes hos le_rfl, if_pos hall]⟩
      · omega
      · exact ⟨os.length, by rw [v2Packet_of_compound hbytes hos le_rfl, if_neg hno]⟩
  · have hshort : p.bytes < 64 := not_le.mp hbytes
    simp only [smbprotoV2Packet_of_lt hshort, Option.some.injEq, exists_const]
    constructor
    · intro h
      exact Or.inr ⟨h.symm, Or.inl hshort⟩
    · rintro (⟨-, hlong, -⟩ | ⟨rfl, -⟩)
      · exact absurd hlong hbytes
      · rfl

/-- An empty packet is rejected. -/
theorem returns_of_empty (hlen : ¬ 1 ≤ p.bytes) (r : ℤ) : Returns p isclient r ↔ r = -1 := by
  have hlt : p.bytes < 1 := not_le.mp hlen
  unfold Returns smbprotoPacket
  simp [hlt, eq_comm]

/-- A message of either protocol. -/
def SmbMessage (p : Packet) : Prop := Smb1Message p ∨ Smb2Message p

/-- A message comes to its end. -/
theorem not_endless_of_message (h : SmbMessage p) : ¬ Endless p := by
  rintro (⟨hlen, hmagic, hcycle⟩ | ⟨hlen, hff, hnone⟩)
  · cases h with
    | inl h1 => exact h1.2.2 hcycle
    | inr h2 => exact not_smb2Message_of_ff (mem_zero_of_magic hmagic) h2
  · cases h with
    | inl h1 => exact not_smb1_of_not_ff hff h1.2.1
    | inr h2 =>
        obtain ⟨-, os, hos, -⟩ := h2
        exact hnone os hos

/-- The verdict in terms of the messages of both protocols. -/
theorem returns_iff (r : ℤ) :
    Returns p isclient r ↔ (r = 0 ∧ SmbMessage p) ∨ (r = -1 ∧ ¬ SmbMessage p ∧ ¬ Endless p) := by
  unfold SmbMessage Endless
  by_cases hlen : 1 ≤ p.bytes
  · by_cases hff : p.mem 0 = 0xFF
    · have hno := not_smb2Message_of_ff hff
      rw [returns_of_ff hlen hff]
      unfold Smb1Message
      tauto
    · have hno := not_smb1_of_not_ff hff
      have hmessage : Smb1Message p ∨ Smb2Message p ↔ Smb2Message p :=
        or_iff_right fun h1 => hno h1.2.1
      rw [returns_of_not_ff hlen hff, hmessage]
      refine or_congr_right (and_congr_right fun _ => ⟨?_, ?_⟩)
      · rintro (hshort | ⟨os, hos, hnot⟩)
        · refine ⟨fun h2 => absurd h2.1 (not_le.mpr hshort), ?_⟩
          rintro (⟨-, hmagic, -⟩ | ⟨hlong, -⟩)
          · exact hno hmagic
          · omega
        · refine ⟨?_, ?_⟩
          · rintro ⟨-, os', hos', hall⟩
            rw [compound_unique hos hos'] at hnot
            exact hnot hall
          · rintro (⟨-, hmagic, -⟩ | ⟨-, -, hnone⟩)
            · exact hno hmagic
            · exact hnone os hos
      · rintro ⟨hnot, hends⟩
        by_contra hcon
        push Not at hcon
        obtain ⟨hlong, hall⟩ := hcon
        apply hends
        refine Or.inr ⟨hlong, hff, fun os hos => ?_⟩
        exact hnot ⟨hlong, os, hos, hall os hos⟩
  · rw [returns_of_empty hlen]
    unfold Smb1Message Smb2Message
    constructor
    · rintro rfl
      refine Or.inr ⟨rfl, ?_, ?_⟩
      · rintro (⟨hlong, -⟩ | ⟨hlong, -⟩)
        · omega
        · omega
      · rintro (⟨hlong, -⟩ | ⟨hlong, -⟩)
        · omega
        · omega
    · rintro (⟨-, ⟨hlong, -⟩ | ⟨hlong, -⟩⟩ | ⟨rfl, -⟩)
      · omega
      · omega
      · rfl

end Verdict

end SmbProxy.Analysis
