import SmbProxy.Analysis.AndxBounds
import SmbProxy.Analysis.CompoundContainment
import SmbProxy.Interface.HandlerCalls

/-!
# What the handlers of `smbproto` get

`data` of an SMB2 handler is the header of its element, never the payload behind it
(`hands_over_elements_iff`). The parameters of an AndX command are handed over with two bytes
too many, since its header of two words is counted as one (`first_call_andx`): a session
setup of twelve words is decoded with the layout of thirteen, one of thirteen words with
none. That a session setup fails is lost in `smbproto_handle_v1_command`, which returns 0
always, and again in the loop, which returns 0 (`rejects_failures_iff`).
-/

set_option autoImplicit false

namespace SmbProxy.Analysis

open SmbProxy.Library SmbProxy.Model SmbProxy.Interface

/-! ## SMB2 -/

section Smb2

variable {p : Packet}

/-- A call comes from a pass that began at its element. -/
theorem data_of_v2Calls {fuel : ℕ} {c : V2Call}
    (h : c ∈ v2Calls (smbprotoV2Packet p fuel).events) : c.data = c.element := by
  by_cases hlen : 64 ≤ p.bytes
  · rw [smbprotoV2Packet_of_le hlen] at h
    obtain ⟨t, -, rfl⟩ := heads_of_v2Calls h
    rfl
  · rw [smbprotoV2Packet_of_lt (not_le.mp hlen)] at h
    cases h

/-- **No element is handed over as it should be**: its data begins with the header. -/
theorem not_ownElement {fuel : ℕ} {c : V2Call}
    (h : c ∈ v2Calls (smbprotoV2Packet p fuel).events) : ¬ OwnElement p c := by
  intro hown
  have hstart := hown.start
  rw [data_of_v2Calls h] at hstart
  omega

/-- The first element is dispatched in the first pass. -/
theorem v2Calls_one (hlen : 64 ≤ p.bytes) (hmagic : HasMagic p 0) :
    v2CallAt p ⟨0, toUInt32 p.bytes⟩ ∈ v2Calls (smbprotoV2Packet p 1).events := by
  rw [smbprotoV2Packet_of_le hlen, loop_one_events]
  by_cases hlast : nextCommandAt p 0 = 0
  · rw [v2Body_of_last (s := ⟨0, toUInt32 p.bytes⟩) hmagic hlast]
    exact List.mem_singleton.mpr rfl
  · rw [v2Body_of_next (s := ⟨0, toUInt32 p.bytes⟩) hmagic hlast]
    exact List.mem_singleton.mpr rfl

/-- Without a header and its magic nothing is dispatched. -/
theorem v2Calls_eq_nil (h : p.bytes < 64 ∨ ¬ HasMagic p 0) (fuel : ℕ) :
    v2Calls (smbprotoV2Packet p fuel).events = [] := by
  by_cases hlen : 64 ≤ p.bytes
  · have hmagic : ¬ HasMagic p 0 := by
      cases h with
      | inl hshort => omega
      | inr hmagic => exact hmagic
    rw [smbprotoV2Packet_of_le hlen]
    cases fuel with
    | zero => rfl
    | succ fuel =>
        have hbody := v2Body_of_not_magic (s := ⟨0, toUInt32 p.bytes⟩) hmagic
        rw [loop_succ_of_exit (by rw [hbody]), hbody]
        rfl
  · rw [smbprotoV2Packet_of_lt (not_le.mp hlen)]
    rfl

/-- The first element gets the pointer to the packet, and not to itself, as every other one does. -/
theorem not_handsOverElements (hlen : 64 ≤ p.bytes) (hmagic : HasMagic p 0) :
    ¬ HandsOverElements p := by
  intro h
  have hcall := v2Calls_one hlen hmagic
  have hinside : (v2CallAt p ⟨0, toUInt32 p.bytes⟩).element + 64 ≤ p.bytes := by
    show (0 : ℤ) + 64 ≤ p.bytes
    omega
  exact not_ownElement hcall (h 1 _ hcall hinside)

/-- **The elements are handed over** in those packets only that hand over none. -/
theorem hands_over_elements_iff (p : Packet) :
    HandsOverElements p ↔ p.bytes < 64 ∨ ¬ HasMagic p 0 := by
  constructor
  · intro h
    by_contra hnone
    obtain ⟨hlen, hmagic⟩ := not_or.mp hnone
    exact not_handsOverElements (not_lt.mp hlen) (not_not.mp hmagic) h
  · intro hnone fuel c hc
    rw [v2Calls_eq_nil hnone] at hc
    cases hc

/-- A packet of one header is handed over as its own payload. -/
theorem not_hands_over_elements_one :
    ¬ HandsOverElements (Packet.ofBytes (smb2HeaderBytes 0) (by decide)) :=
  not_handsOverElements (by decide) (by decide)

end Smb2

/-! ## The parameters of an AndX command -/

section Andx

variable {p : Packet} {isclient : Bool}

/-- The calls of one part of a walk, and those of the other. -/
theorem v1Calls_append (es es' : List V1Event) : v1Calls (es ++ es') = v1Calls es ++ v1Calls es' :=
  List.filterMap_append

/-- A walk begins with the call of its first pass. -/
theorem v1Calls_head (p : Packet) (isclient : Bool) (l : V1Locals) (s : V1State) (fuel : ℕ) :
    (v1Calls (loop (v1Body p isclient l) (fuel + 1) s).events).head? = some (v1Call l s) := by
  have hfirst : ∀ es, (v1Calls ((v1Body p isclient l s).events ++ es)).head? = some (v1Call l s) := by
    intro es
    rw [v1Body_events]
    rfl
  cases follows_or_exit (v1Body p isclient l) s with
  | inl hfollows =>
      obtain ⟨t, ht⟩ := hfollows
      rw [loop_succ_of_follows ht]
      exact hfirst _
  | inr hexit =>
      obtain ⟨v, hv⟩ := hexit
      rw [loop_succ_of_exit hv]
      have hcall := hfirst []
      rwa [List.append_nil] at hcall

/-- **What the first call of an AndX packet hands over**: two bytes more than the block has
behind the AndX header. -/
theorem first_call_andx (h : AndxFirst p) :
    FirstCall p isclient ⟨p.mem 4, .packet 37, ((p.mem 32).toNat - 1) * 2,
      .packet (33 + (p.mem 32).toNat * 2), p.bytes - 33 - (p.mem 32).toNat * 2⟩ := by
  intro fuel
  have hlen : 32 < p.bytes := by
    have hcomplete := h.complete
    omega
  have hhead := v1Calls_head p isclient
    ⟨(p.mem 32).toNat, toUInt32 (p.bytes - 33 - (p.mem 32).toNat * 2),
      .packet (33 + (p.mem 32).toNat * 2)⟩ ⟨p.mem 4, .packet 33⟩ fuel
  have hcall : v1Call ⟨(p.mem 32).toNat, toUInt32 (p.bytes - 33 - (p.mem 32).toNat * 2),
      .packet (33 + (p.mem 32).toNat * 2)⟩ ⟨p.mem 4, .packet 33⟩ =
        ⟨p.mem 4, .packet 37, ((p.mem 32).toNat - 1) * 2, .packet (33 + (p.mem 32).toNat * 2),
          p.bytes - 33 - (p.mem 32).toNat * 2⟩ := by
    unfold v1Call
    simp only [h.andx, if_true, andxParamBytes_eq, dataBytes_eq p hlen]
    rfl
  rw [hcall] at hhead
  unfold smbprotoV1Packet
  rw [v1Enter_of_bytes_gt hlen h.magic]
  dsimp only
  rw [v1Calls_append]
  exact hhead

/-- A session setup is decoded when its block has eleven words, as the extended one, or
twelve, as the other one. -/
theorem setupRequest_result (w : ℕ) (params : Pointer) :
    (smbprotoSessionSetupRequest p params (((w : ℤ) - 1) * 2)).2 = 0 ↔ w = 11 ∨ w = 12 := by
  unfold smbprotoSessionSetupRequest
  dsimp only
  split_ifs
  · simp only [true_iff]
    omega
  · simp only [true_iff]
    omega
  · simp only [neg_eq_zero, one_ne_zero, false_iff]
    omega

/-- The first call of an AndX block does not get its own block: its parameters begin behind the
link. -/
theorem not_ownBlock (h : AndxFirst p) {c : V1Call} (hc : FirstCall p isclient c) :
    ¬ OwnBlock p isclient c := by
  intro hown
  have hfirst := (hc 0).symm.trans (first_call_andx h 0)
  cases hfirst
  have hbytes := hown.paramBytes
  dsimp only at hbytes
  omega

/-- **The parameters are never handed over exactly.** -/
theorem not_hands_over_block (p : Packet) (isclient : Bool) (h : AndxFirst p) :
    ¬ ∃ c, FirstCall p isclient c ∧ OwnBlock p isclient c := by
  rintro ⟨c, hc, hown⟩
  exact not_ownBlock h hc hown

/-- A session setup with a block of the given number of words, which are 0 behind the AndX
header. -/
def setupPacket (words : UInt8) : Packet :=
  Packet.ofBytes (smb1Header smbComSessionSetupAndx ++ words :: 0xFF :: List.replicate 33 0)
    (by simp [smb1Header, smb1Magic])

/-- A set-up with thirteen words. -/
theorem not_hands_over_block_thirteen :
    ¬ ∃ c, FirstCall (setupPacket 13) true c ∧ OwnBlock (setupPacket 13) true c :=
  not_hands_over_block (setupPacket 13) true ⟨by decide, by decide, by decide, by decide⟩

/-- The block of twelve words is handed over as 22 bytes. -/
theorem not_ownBlock_twelve :
    ¬ ∃ c, FirstCall (setupPacket 12) true c ∧ OwnBlock (setupPacket 12) true c := by
  rintro ⟨c, hc, hown⟩
  exact not_ownBlock ⟨by decide, by decide, by decide, by decide⟩ hc hown

end Andx

/-! ## The result of a handler -/

section Results

variable {p : Packet} {isclient : Bool} {l : V1Locals} {s : V1State}

/-- The calls are those of the walk. -/
theorem smb1Calls_map_v1 (es : List V1Event) : smb1Calls (es.map .v1) = v1Calls es := by
  unfold smb1Calls v1Calls
  rw [List.filterMap_map]
  apply List.filterMap_congr
  intro e _
  cases e with
  | read ptr n => rfl
  | call c => rfl

/-- A walk of SMB2 makes no call of SMB1. -/
theorem smb1Calls_map_v2 (es : List V2Event) : smb1Calls (es.map .v2) = [] := by
  unfold smb1Calls
  rw [List.filterMap_map, List.filterMap_eq_nil_iff]
  intro e _
  rfl

/-- The loop returns 0, whatever the handlers have returned. -/
theorem loop_v1Body_result {fuel : ℕ} {result : ℤ}
    (h : (loop (v1Body p isclient l) fuel s).next = .inr result) : result = 0 := by
  induction fuel generalizing s with
  | zero => cases h
  | succ fuel ih =>
      by_cases hfollows : ∃ t, Follows (v1Body p isclient l) s t
      · obtain ⟨t, ht⟩ := hfollows
        rw [loop_succ_of_follows ht] at h
        exact ih h
      · rw [loop_succ_of_exit (v1Body_exit (not_exists.mp hfollows))] at h
        cases h
        rfl

/-- The handling of a pass fails when it is that of a client's session setup and the first
block has neither eleven nor twelve words. -/
theorem fails_v1Call_iff {w : UInt8} (hw : l.wordCount = w.toNat) :
    Fails p isclient (v1Call l s) ↔
      isclient = true ∧ s.nextCommand = smbComSessionSetupAndx ∧ w.toNat ≠ 11 ∧ w.toNat ≠ 12 := by
  unfold Fails
  have hcommand : (v1Call l s).command = s.nextCommand := by
    unfold v1Call
    split_ifs
    · rfl
    · rfl
  rw [hcommand]
  refine and_congr_right fun _ => and_congr_right fun hsetup => ?_
  have handx : smbprotoIsAndxCommand s.nextCommand = true := by
    rw [hsetup]
    rfl
  have hbytes : (v1Call l s).paramBytes = ((w.toNat : ℤ) - 1) * 2 := by
    unfold v1Call
    rw [if_pos handx, hw]
    exact andxParamBytes_eq w
  rw [hbytes, Ne, setupRequest_result, not_or]

/-- A pass makes one call. -/
theorem call_of_mem_v1Body {c : V1Call} (h : .call c ∈ (v1Body p isclient l s).events) :
    c = v1Call l s := by
  rw [v1Body_events, List.mem_cons] at h
  cases h with
  | inl hcall =>
      cases hcall
      rfl
  | inr hreads =>
      by_cases handx : smbprotoIsAndxCommand s.nextCommand = true
      · simp [handx] at hreads
      · simp [handx] at hreads

/-- A call fails in some walk iff that of a loop head does. -/
theorem fails_iff_heads {es : List V1Event} (henter : smbprotoV1Enter p = ⟨es, .inl (l, s)⟩)
    (hes : v1Calls es = []) :
    (∃ fuel, ∃ c ∈ v1Calls (smbprotoV1Packet p isclient fuel).events, Fails p isclient c) ↔
      ∃ t, Heads (v1Body p isclient l) s t ∧ Fails p isclient (v1Call l t) := by
  have hcalls : ∀ fuel, v1Calls (smbprotoV1Packet p isclient fuel).events =
      v1Calls (loop (v1Body p isclient l) fuel s).events := by
    intro fuel
    unfold smbprotoV1Packet
    rw [henter]
    dsimp only
    rw [v1Calls_append, hes, List.nil_append]
  constructor
  · rintro ⟨fuel, c, hc, hfails⟩
    rw [hcalls] at hc
    obtain ⟨e, he, hec⟩ := List.mem_filterMap.mp hc
    obtain ⟨t, ht, het⟩ := mem_loop_events_iff.mp ⟨fuel, he⟩
    cases e with
    | read ptr n => cases hec
    | call c' =>
        cases hec
        rw [call_of_mem_v1Body het] at hfails
        exact ⟨t, ht, hfails⟩
  · rintro ⟨t, ht, hfails⟩
    have hevent : V1Event.call (v1Call l t) ∈ (v1Body p isclient l t).events := by
      rw [v1Body_events]
      exact List.mem_cons_self
    obtain ⟨fuel, he⟩ := mem_loop_events_iff.mpr ⟨t, ht, hevent⟩
    refine ⟨fuel, v1Call l t, ?_, hfails⟩
    rw [hcalls]
    exact List.mem_filterMap.mpr ⟨_, he, rfl⟩

/-- A client's packet that holds a session setup, and neither eleven nor twelve words in its
first block. -/
def SetupMismatch (p : Packet) (isclient : Bool) : Prop :=
  isclient = true ∧ 32 ≤ p.bytes ∧ window p.mem 0 4 = smb1Magic ∧
    if p.bytes = 32 then p.mem 4 = smbComSessionSetupAndx
    else (p.mem 32).toNat ≠ 11 ∧ (p.mem 32).toNat ≠ 12 ∧
      ∃ offset, AndxBlock p smbComSessionSetupAndx offset

/-- A packet without parameters has but one command that is not 0. -/
theorem heads_noParams {t : V1State}
    (h : Heads (v1Body p isclient l) ⟨p.mem 4, .literal 0⟩ t) :
    t.nextCommand = 0 ∨ t = ⟨p.mem 4, .literal 0⟩ := by
  refine loop_invariant (fun t => t.nextCommand = 0 ∨ t = ⟨p.mem 4, .literal 0⟩) ?_ (Or.inr rfl) h
  intro s t hs hst
  obtain ⟨handx, -, rfl⟩ := v1Body_follows_iff.mp hst
  left
  cases hs with
  | inl hzero =>
      rw [hzero] at handx
      cases handx
  | inr hfirst =>
      rw [hfirst]
      exact p.literal_nul

/-- **When a call fails.** -/
theorem fails_iff (p : Packet) (isclient : Bool) :
    (∃ fuel, ∃ c ∈ v1Calls (smbprotoV1Packet p isclient fuel).events, Fails p isclient c) ↔
      SetupMismatch p isclient := by
  unfold SetupMismatch
  by_cases hlen : 32 ≤ p.bytes
  · by_cases hmagic : window p.mem 0 4 = smb1Magic
    · by_cases heq : p.bytes = 32
      · have hw : (⟨0, 0, .packet 32⟩ : V1Locals).wordCount = (0 : UInt8).toNat := rfl
        rw [fails_iff_heads (v1Enter_of_bytes_eq heq hmagic) rfl, if_pos heq]
        constructor
        · rintro ⟨t, ht, hfails⟩
          obtain ⟨hclient, hsetup, -⟩ := (fails_v1Call_iff hw).mp hfails
          refine ⟨hclient, hlen, hmagic, ?_⟩
          cases heads_noParams ht with
          | inl hzero =>
              rw [hzero] at hsetup
              cases hsetup
          | inr hfirst =>
              rw [hfirst] at hsetup
              exact hsetup
        · rintro ⟨hclient, -, -, hsetup⟩
          exact ⟨_, .refl, (fails_v1Call_iff hw).mpr ⟨hclient, hsetup, by decide, by decide⟩⟩
      · have hlt : 32 < p.bytes := by omega
        have hw : (⟨(p.mem 32).toNat, toUInt32 (p.bytes - 33 - (p.mem 32).toNat * 2),
            .packet (33 + (p.mem 32).toNat * 2)⟩ : V1Locals).wordCount = (p.mem 32).toNat := rfl
        rw [fails_iff_heads (v1Enter_of_bytes_gt hlt hmagic) rfl, if_neg heq]
        constructor
        · rintro ⟨t, ht, hfails⟩
          obtain ⟨hclient, hsetup, hwords⟩ := (fails_v1Call_iff hw).mp hfails
          obtain ⟨command, offset, rfl, hblock⟩ := heads_iff_andxBlock.mp ht
          obtain rfl : command = smbComSessionSetupAndx := hsetup
          exact ⟨hclient, hlen, hmagic, hwords.1, hwords.2, offset, hblock⟩
        · rintro ⟨hclient, -, -, heleven, htwelve, offset, hblock⟩
          exact ⟨_, heads_iff_andxBlock.mpr ⟨_, offset, rfl, hblock⟩,
            (fails_v1Call_iff hw).mpr ⟨hclient, rfl, heleven, htwelve⟩⟩
    · have hevents : ∀ fuel, v1Calls (smbprotoV1Packet p isclient fuel).events = [] := by
        intro fuel
        simp [smbprotoV1Packet, smbprotoV1Enter, not_lt.mpr hlen, hmagic, v1Calls]
      simp [hevents, hmagic]
  · have hevents : ∀ fuel, v1Calls (smbprotoV1Packet p isclient fuel).events = [] := by
      intro fuel
      simp [smbprotoV1Packet, smbprotoV1Enter, not_le.mp hlen, v1Calls]
    simp [hevents, hlen]

/-- The magic of SMB1 begins with `0xFF`. -/
theorem mem_zero_of_magic (h : window p.mem 0 4 = smb1Magic) : p.mem 0 = 0xFF := by
  have hbytes : [p.mem 0, p.mem (0 + 1), p.mem (0 + 2), p.mem (0 + 3)] = smb1Magic := by
    rw [← window_four, h]
  exact (List.cons.inj hbytes).1

/-- A packet that begins with `0xFF` is one of SMB1. -/
theorem smbprotoPacket_of_v1 (h : 1 ≤ p.bytes) (hff : p.mem 0 = 0xFF) (isclient : Bool) (fuel : ℕ) :
    smbprotoPacket p isclient fuel =
      ⟨(smbprotoV1Packet p isclient fuel).events.map .v1,
        (smbprotoV1Packet p isclient fuel).result⟩ := by
  unfold smbprotoPacket
  rw [if_neg (by omega), if_pos hff]

/-- A packet that is not an SMB1 packet makes no call of the SMB1 handler. -/
theorem smb1Calls_eq_nil (h : ¬ (1 ≤ p.bytes ∧ p.mem 0 = 0xFF)) (isclient : Bool) (fuel : ℕ) :
    smb1Calls (smbprotoPacket p isclient fuel).events = [] := by
  by_cases hlen : 1 ≤ p.bytes
  · have hff : p.mem 0 ≠ 0xFF := fun heq => h ⟨hlen, heq⟩
    rw [smbprotoPacket_of_v2 hlen hff]
    exact smb1Calls_map_v2 _
  · have hshort : smbprotoPacket p isclient fuel = ⟨[], some (-1)⟩ := if_pos (not_le.mp hlen)
    rw [hshort]
    rfl

/-- A handler fails exactly on a set-up with a number of words that it does not take. -/
theorem packet_fails_iff (p : Packet) (isclient : Bool) :
    (∃ fuel, ∃ c ∈ smb1Calls (smbprotoPacket p isclient fuel).events, Fails p isclient c) ↔
      SetupMismatch p isclient := by
  by_cases hv1 : 1 ≤ p.bytes ∧ p.mem 0 = 0xFF
  · rw [← fails_iff p isclient]
    simp only [smbprotoPacket_of_v1 hv1.1 hv1.2, smb1Calls_map_v1]
  · constructor
    · rintro ⟨fuel, c, hc, -⟩
      rw [smb1Calls_eq_nil hv1] at hc
      cases hc
    · rintro ⟨-, hlen, hmagic, -⟩
      exact absurd ⟨by omega, mem_zero_of_magic hmagic⟩ hv1

/-- A packet that gets to the loop is accepted when its walk returns. -/
theorem v1Packet_result_zero (hlen : 32 ≤ p.bytes) (hmagic : window p.mem 0 4 = smb1Magic)
    {fuel : ℕ} {result : ℤ} (h : (smbprotoV1Packet p isclient fuel).result = some result) :
    result = 0 := by
  obtain ⟨es, l, s, henter⟩ : ∃ es l s, smbprotoV1Enter p = ⟨es, .inl (l, s)⟩ := by
    by_cases heq : p.bytes = 32
    · exact ⟨_, _, _, v1Enter_of_bytes_eq heq hmagic⟩
    · exact ⟨_, _, _, v1Enter_of_bytes_gt (by omega) hmagic⟩
  unfold smbprotoV1Packet at h
  rw [henter] at h
  exact loop_v1Body_result (Sum.getRight?_eq_some_iff.mp h)

/-- Where a handler fails, the packet is not rejected. -/
theorem not_rejectsFailures (h : SetupMismatch p isclient) : ¬ RejectsFailures p isclient := by
  intro hrejects
  obtain ⟨fuel, result, hresult, hne⟩ := hrejects.rejects ((packet_fails_iff p isclient).mpr h)
  obtain ⟨-, hlen, hmagic, -⟩ := h
  rw [smbprotoPacket_of_v1 (by omega) (mem_zero_of_magic hmagic)] at hresult
  exact hne (v1Packet_result_zero hlen hmagic hresult)

/-- **A failure rejects the packet** only where no call fails: in no client's packet that
holds a session setup and has neither eleven nor twelve words in its first block. -/
theorem rejects_failures_iff (p : Packet) (isclient : Bool) :
    RejectsFailures p isclient ↔ ¬ SetupMismatch p isclient := by
  constructor
  · intro hrejects hmismatch
    exact not_rejectsFailures hmismatch hrejects
  · intro hmatch
    have hnone := fun hfails => hmatch ((packet_fails_iff p isclient).mp hfails)
    refine ⟨fun hfails => absurd hfails hnone, fun fuel _ c hc hfails => hnone ⟨fuel, c, hc, hfails⟩⟩

/-- A client's session setup with five words is accepted. -/
theorem not_rejects_failures_five : ¬ RejectsFailures (setupPacket 5) true := by
  apply not_rejectsFailures
  refine ⟨rfl, by decide, by decide, ?_⟩
  rw [if_neg (by decide)]
  exact ⟨by decide, by decide, 33, .first⟩

end Results

end SmbProxy.Analysis
