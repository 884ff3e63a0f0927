import SmbProxy.Interface.Smb2Compound
import Mathlib.Data.List.TakeWhile

/-!
# The walk through a compound message

A pass of the compound loop goes on exactly when the header at `pktptr` has the magic and
a NextCommand, and then `pktptr` is the next element (`v2Body_follows_iff`). So the walk
calls the handler for the elements of the chain in order, up to the first without the
magic (`loop_walks`).

NextCommand is not 0 where the walk goes on, so `pktptr` grows; as long as the headers
are inside the packet, the walk ends (`v2Packet_walks_compound`).
-/

set_option autoImplicit false

namespace SmbProxy.Analysis

open SmbProxy.Library SmbProxy.Model SmbProxy.Interface

/-! ## One pass -/

/-- The call a pass makes on a header with the magic. -/
def v2CallAt (p : Packet) (s : V2State) : V2Call :=
  ⟨s.pktptr, UInt8.ofNat (p.smb2Header s.pktptr).command, p.smb2Header s.pktptr, s.pktptr,
    toInt32 (toUInt32 (s.byteCount - 64))⟩

/-- A pass without the magic rejects. -/
theorem v2Body_of_not_magic {p : Packet} {s : V2State} (h : ¬ HasMagic p s.pktptr) :
    v2Body p s = ⟨[.read s.pktptr 64], .inr (-1)⟩ := by
  have hid : (p.smb2Header s.pktptr).protocolId ≠ smb2Magic := h
  unfold v2Body
  simp [hid]

/-- A pass at the last element calls its handler and accepts. -/
theorem v2Body_of_last {p : Packet} {s : V2State} (h : HasMagic p s.pktptr)
    (hlast : nextCommandAt p s.pktptr = 0) :
    v2Body p s = ⟨[.read s.pktptr 64, .call (v2CallAt p s)], .inr 0⟩ := by
  have hid : (p.smb2Header s.pktptr).protocolId = smb2Magic := h
  have hnext : (p.smb2Header s.pktptr).nextCommand = 0 := hlast
  unfold v2Body v2CallAt
  simp [hid, hnext, smbprotoHandleV2Command]

/-- A pass at another element calls its handler and goes on to the next one. -/
theorem v2Body_of_next {p : Packet} {s : V2State} (h : HasMagic p s.pktptr)
    (hne : nextCommandAt p s.pktptr ≠ 0) :
    v2Body p s = ⟨[.read s.pktptr 64, .call (v2CallAt p s)],
      .inl ⟨s.pktptr + nextCommandAt p s.pktptr, toUInt32 (s.byteCount - 64)⟩⟩ := by
  have hid : (p.smb2Header s.pktptr).protocolId = smb2Magic := h
  have hnext : (p.smb2Header s.pktptr).nextCommand = nextCommandAt p s.pktptr := rfl
  unfold v2Body v2CallAt
  simp [hid, hnext, hne, smbprotoHandleV2Command]

/-- **Where a pass goes.** -/
theorem v2Body_follows_iff {p : Packet} {s t : V2State} :
    Follows (v2Body p) s t ↔
      HasMagic p s.pktptr ∧ nextCommandAt p s.pktptr ≠ 0 ∧
        t = ⟨s.pktptr + nextCommandAt p s.pktptr, toUInt32 (s.byteCount - 64)⟩ := by
  unfold Follows
  by_cases h : HasMagic p s.pktptr
  · by_cases hlast : nextCommandAt p s.pktptr = 0
    · simp [v2Body_of_last h hlast, hlast]
    · simp [v2Body_of_next h hlast, h, hlast, eq_comm]
  · simp [v2Body_of_not_magic h, h]

/-- A pass copies the header at its head and calls the handler at most for it. -/
theorem mem_v2Body_events {p : Packet} {s : V2State} {e : V2Event}
    (h : e ∈ (v2Body p s).events) : e = .read s.pktptr 64 ∨ e = .call (v2CallAt p s) := by
  by_cases hmagic : HasMagic p s.pktptr
  · by_cases hlast : nextCommandAt p s.pktptr = 0
    · simpa [v2Body_of_last hmagic hlast] using h
    · simpa [v2Body_of_next hmagic hlast] using h
  · rw [v2Body_of_not_magic hmagic, List.mem_singleton] at h
    exact Or.inl h

/-- The loop comes to elements only. -/
theorem v2Element_of_heads {p : Packet} {c : ℤ} {t : V2State}
    (h : Heads (v2Body p) ⟨0, c⟩ t) : V2Element p t.pktptr := by
  refine loop_invariant (fun t => V2Element p t.pktptr) ?_ .first h
  intro s t hs hst
  obtain ⟨hmagic, hne, rfl⟩ := v2Body_follows_iff.mp hst
  exact .next hs hmagic hne

/-- Elements are not in front of the packet. -/
theorem v2Element_nonneg {p : Packet} {o : ℤ} (h : V2Element p o) : 0 ≤ o := by
  induction h with
  | first => exact le_rfl
  | next _ _ _ ih => omega

/-! ## Runs of the loop -/

/-- Every call is made for a header that the walk is at. -/
theorem heads_of_v2Calls {p : Packet} {fuel : ℕ} {s : V2State} {c : V2Call}
    (h : c ∈ v2Calls (loop (v2Body p) fuel s).events) :
    ∃ t, Heads (v2Body p) s t ∧ c = v2CallAt p t := by
  obtain ⟨e, he, hec⟩ := List.mem_filterMap.mp h
  obtain ⟨t, ht, het⟩ := mem_loop_events_iff.mp ⟨fuel, he⟩
  cases mem_v2Body_events het with
  | inl hread =>
      subst hread
      cases hec
  | inr hcall =>
      subst hcall
      cases hec
      exact ⟨t, ht, rfl⟩

/-- The calls of one part of a walk, and those of the other. -/
theorem v2Calls_append (es es' : List V2Event) :
    v2Calls (es ++ es') = v2Calls es ++ v2Calls es' :=
  List.filterMap_append

/-- **The loop walks the chain.** With a pass for every element it calls the handler for
those before the first without the magic, and returns 0 iff there is none. -/
theorem loop_walks {p : Packet} {o : ℤ} {os : List ℤ} (h : Compound p o os) (c : ℤ) {n : ℕ}
    (hn : os.length ≤ n) :
    (v2Calls (loop (v2Body p) n ⟨o, c⟩).events).map V2Call.element =
        os.takeWhile (fun o => decide (HasMagic p o)) ∧
      (loop (v2Body p) n ⟨o, c⟩).next = .inr (if ∀ o ∈ os, HasMagic p o then 0 else -1) := by
  induction h generalizing n c with
  | last hmagic hlast =>
      obtain ⟨k, rfl⟩ : ∃ k, n = k + 1 := ⟨n - 1, by simp at hn; omega⟩
      have hbody := v2Body_of_last (s := ⟨_, c⟩) hmagic hlast
      rw [loop_succ_of_exit (by rw [hbody]), hbody]
      simp [v2Calls, v2CallAt, hmagic]
  | noMagic hno =>
      obtain ⟨k, rfl⟩ : ∃ k, n = k + 1 := ⟨n - 1, by simp at hn; omega⟩
      have hbody := v2Body_of_not_magic (s := ⟨_, c⟩) hno
      rw [loop_succ_of_exit (by rw [hbody]), hbody]
      simp [v2Calls, hno]
  | @next o os hmagic hne _ ih =>
      obtain ⟨k, rfl⟩ : ∃ k, n = k + 1 := ⟨n - 1, by simp at hn; omega⟩
      have hbody := v2Body_of_next (s := ⟨o, c⟩) hmagic hne
      obtain ⟨hcalls, hresult⟩ := ih (toUInt32 (c - 64)) (n := k) (by simpa using hn)
      rw [loop_succ_of_follows (by rw [Follows, hbody]), hbody]
      constructor
      · rw [v2Calls_append, List.map_append, hcalls]
        simp [v2Calls, v2CallAt, hmagic]
      · simp only [hresult, List.forall_mem_cons, hmagic, true_and]

/-- Where the loop ends there is a chain, no longer than its passes. -/
theorem compound_of_finishes {p : Packet} {n : ℕ} {s : V2State}
    (h : FinishesWithin (v2Body p) n s) : ∃ os, Compound p s.pktptr os ∧ os.length ≤ n := by
  induction n generalizing s with
  | zero => exact absurd h (not_finishesWithin_zero s)
  | succ n ih =>
      by_cases hmagic : HasMagic p s.pktptr
      · by_cases hlast : nextCommandAt p s.pktptr = 0
        · exact ⟨[s.pktptr], .last hmagic hlast, by simp⟩
        · have hfollows := v2Body_follows_iff.mpr ⟨hmagic, hlast, rfl⟩
          obtain ⟨os, hos, hlen⟩ := ih ((finishesWithin_succ_of_follows hfollows).mp h)
          exact ⟨s.pktptr :: os, .next hmagic hlast hos, by simpa using hlen⟩
      · exact ⟨[s.pktptr], .noMagic hmagic, by simp⟩

/-- There is one chain. -/
theorem compound_unique {p : Packet} {o : ℤ} {os os' : List ℤ} (h : Compound p o os)
    (h' : Compound p o os') : os = os' := by
  induction h generalizing os' with
  | last hmagic hlast =>
      cases h' with
      | last => rfl
      | noMagic hno => exact absurd hmagic hno
      | next _ hne => exact absurd hlast hne
  | noMagic hno =>
      cases h' with
      | last hmagic => exact absurd hmagic hno
      | noMagic => rfl
      | next hmagic => exact absurd hmagic hno
  | next hmagic hne _ ih =>
      cases h' with
      | last _ hlast => exact absurd hlast hne
      | noMagic hno => exact absurd hmagic hno
      | next _ _ htail => rw [ih htail]

/-- While the headers are inside the packet the walk ends, within `bytes` passes. -/
theorem v2Body_ends {p : Packet} (hinside : ∀ o, V2Element p o → o + 64 ≤ p.bytes) (c : ℤ) :
    FinishesWithin (v2Body p) p.bytes.toNat ⟨0, c⟩ := by
  have hfirst := hinside 0 .first
  have hends : FinishesWithin (v2Body p) ((p.bytes - 64 - 0).toNat + 1) ⟨0, c⟩ := by
    refine finishes_of_measure (fun s : V2State => V2Element p s.pktptr)
      (fun s : V2State => (p.bytes - 64 - s.pktptr).toNat) ?_ V2Element.first
    intro s t hs hst
    obtain ⟨hmagic, hne, rfl⟩ := v2Body_follows_iff.mp hst
    have helement := V2Element.next hs hmagic hne
    refine ⟨helement, ?_⟩
    have := hinside _ helement
    have : 0 < nextCommandAt p s.pktptr := Nat.pos_of_ne_zero hne
    dsimp only
    omega
  exact finishesWithin_mono (by omega) hends

/-! ## The packet -/

/-- A packet with room for a header is walked. -/
theorem smbprotoV2Packet_of_le {p : Packet} (h : 64 ≤ p.bytes) (fuel : ℕ) :
    smbprotoV2Packet p fuel =
      ⟨(loop (v2Body p) fuel ⟨0, toUInt32 p.bytes⟩).events,
        (loop (v2Body p) fuel ⟨0, toUInt32 p.bytes⟩).next.getRight?⟩ := by
  unfold smbprotoV2Packet
  rw [if_neg (not_lt.mpr h)]

/-- A shorter one is rejected at once. -/
theorem smbprotoV2Packet_of_lt {p : Packet} (h : p.bytes < 64) (fuel : ℕ) :
    smbprotoV2Packet p fuel = ⟨[], some (-1)⟩ :=
  if_pos h

/-- **A compound message is walked completely and in order.** If every element has its
header inside the packet, the chain has an end, nothing outside the packet is copied, and
a walk of `bytes` passes or more returns: 0 after one call for every element if all have
the magic, -1 after one call for every element before the first that lacks it. Each call
gets the header of its element. -/
theorem v2Packet_walks_compound (p : Packet) (hlen : 64 ≤ p.bytes)
    (hinside : ∀ o, V2Element p o → o + 64 ≤ p.bytes) :
    (∃ os, Compound p 0 os) ∧
      (∀ fuel, ∀ e ∈ (smbprotoV2Packet p fuel).events, V2Inside p e) ∧
      ∀ os, Compound p 0 os → ∀ fuel : ℕ, p.bytes ≤ fuel →
        let out := smbprotoV2Packet p fuel
        (∀ c ∈ v2Calls out.events, c.hdr = p.smb2Header c.element ∧ c.data = c.element) ∧
        ((∀ o ∈ os, HasMagic p o) →
          (v2Calls out.events).map V2Call.element = os ∧ out.result = some 0) ∧
        ∀ k (h : k < os.length), ¬ HasMagic p os[k] → (∀ j (hj : j < k), HasMagic p os[j]) →
          (v2Calls out.events).map V2Call.element = os.take k ∧ out.result = some (-1) := by
  obtain ⟨chain, hchain, hchainLen⟩ := compound_of_finishes (v2Body_ends hinside (toUInt32 p.bytes))
  refine ⟨⟨chain, hchain⟩, ?_, ?_⟩
  · intro fuel e he
    rw [smbprotoV2Packet_of_le hlen] at he
    obtain ⟨t, ht, het⟩ := mem_loop_events_iff.mp ⟨fuel, he⟩
    have helement := v2Element_of_heads ht
    rcases mem_v2Body_events het with rfl | rfl
    · exact ⟨v2Element_nonneg helement, hinside _ helement⟩
    · trivial
  · intro os hos fuel hfuel out
    obtain rfl := compound_unique hchain hos
    have henough : _ ≤ fuel := calc
      _ ≤ p.bytes.toNat := hchainLen
      _ ≤ fuel := by omega
    obtain ⟨hcalls, hresult⟩ := loop_walks hchain (toUInt32 p.bytes) henough
    have hout : out = _ := smbprotoV2Packet_of_le hlen fuel
    rw [hout]
    dsimp only
    rw [hcalls, hresult]
    refine ⟨?_, ?_, ?_⟩
    · intro c hc
      obtain ⟨t, -, rfl⟩ := heads_of_v2Calls hc
      exact ⟨rfl, rfl⟩
    · intro hall
      rw [if_pos hall]
      refine ⟨List.takeWhile_eq_self_iff.mpr ?_, rfl⟩
      simpa using hall
    · intro k hk hno hbefore
      have hnot : ¬ ∀ o ∈ chain, HasMagic p o := fun hall => hno (hall _ (List.getElem_mem hk))
      rw [if_neg hnot]
      refine ⟨?_, rfl⟩
      rw [List.takeWhile_eq_take_findIdx_not, (List.findIdx_eq hk).mpr ⟨by simp [hno], ?_⟩]
      intro j hj
      simp [hbefore j hj]

/-- Two elements. -/
theorem v2Packet_walks_compound_two :
    let p := Packet.ofBytes (smb2HeaderBytes 64 ++ smb2HeaderBytes 0) (by decide +kernel)
    (v2Calls (smbprotoV2Packet p 128).events).map V2Call.element = [0, 64] ∧
      (smbprotoV2Packet p 128).result = some 0 := by
  intro p
  have hmagic : HasMagic p 0 := by decide +kernel
  have hmagic' : HasMagic p 64 := by decide +kernel
  have hnext : nextCommandAt p 0 = 64 := by decide +kernel
  have hlast : nextCommandAt p 64 = 0 := by decide +kernel
  have helement : ∀ o, V2Element p o → o = 0 ∨ o = 64 := by
    intro o ho
    induction ho with
    | first => exact Or.inl rfl
    | next _ _ hne ih =>
        rcases ih with rfl | rfl
        · rw [hnext]
          exact Or.inr rfl
        · exact absurd hlast hne
  have hchain : Compound p 0 [0, 64] := by
    refine .next hmagic (by rw [hnext]; decide) ?_
    rw [hnext]
    exact .last hmagic' hlast
  have hbytes : p.bytes = 128 := by decide +kernel
  obtain ⟨-, -, hwalk⟩ := v2Packet_walks_compound p (by omega)
    (fun o ho => by rcases helement o ho with rfl | rfl <;> omega)
  exact (hwalk [0, 64] hchain 128 (by omega)).2.1 (by simp [hmagic, hmagic'])

end SmbProxy.Analysis
