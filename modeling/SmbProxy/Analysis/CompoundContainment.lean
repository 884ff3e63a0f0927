import SmbProxy.Analysis.CompoundWalk

/-!
# When the verdict depends on the packet alone

The length of the packet is checked once, before the loop, so the header of a later
element can stand behind the packet's end, where the ring holds whatever came before. The
verdict is a function of the packet iff no element's header has to be looked for there
(`packet_verdict_iff`).

One direction is a congruence: with every header contained, each pass is the same in all
memories that agree on the packet (`v2Body_congr`). For the other, an element that every
such memory reaches (`Reached`) and whose header is not contained is given a magic by one
memory and none by another; if its magic is inside and only NextCommand is not, the same
is done with the element it then leads to.
-/

set_option autoImplicit false

namespace SmbProxy.Analysis

open SmbProxy.Library SmbProxy.Model SmbProxy.Interface

/-! ## Memories that agree on the packet -/

/-- A packet agrees with itself. -/
theorem agree_refl (p : Packet) : Agree p p := ⟨rfl, fun _ _ _ => rfl⟩

/-- Packets that agree have the same headers inside. -/
theorem smb2Header_congr {p q : Packet} (h : Agree p q) {o : ℤ} (h0 : 0 ≤ o)
    (hin : o + 24 ≤ p.bytes) : q.smb2Header o = p.smb2Header o := by
  have hmem : ∀ i, 0 ≤ i → i < 24 → q.mem (o + i) = p.mem (o + i) :=
    fun i hi hi' => h.2 _ (by omega) (by omega)
  have hmagic : window q.mem o 4 = window p.mem o 4 :=
    window_congr fun a ha ha' => h.2 a (by omega) (by omega)
  unfold Packet.smb2Header le32 le16
  simp only [hmagic, add_assoc]
  rw [hmem (8 + 1) (by omega) (by omega), hmem (8 + 2) (by omega) (by omega),
    hmem (8 + 3) (by omega) (by omega), hmem (12 + 1) (by omega) (by omega),
    hmem (20 + 1) (by omega) (by omega), hmem (20 + 2) (by omega) (by omega),
    hmem (20 + 3) (by omega) (by omega), hmem 8 (by omega) (by omega),
    hmem 12 (by omega) (by omega), hmem 20 (by omega) (by omega)]

/-- A byte of the packet that is not that of the magic rules the magic out, whatever is behind the
packet. -/
theorem not_hasMagic_of_byte {p q : Packet} (h : Agree p q) {o : ℤ} (h0 : 0 ≤ o) {i : ℕ}
    (hi : i < smb2Magic.length) (hin : o + i < p.bytes) (hne : p.mem (o + i) ≠ smb2Magic[i]) :
    ¬ HasMagic q o := by
  intro hmagic
  have hwindow : i < (window q.mem o 4).length := by
    rw [window_length]
    exact hi
  have hbyte := List.getElem_of_eq hmagic hwindow
  rw [getElem_window, h.2 _ (by omega) hin] at hbyte
  exact hne hbyte

/-- A pass depends on the header only. -/
theorem v2Body_eq_of_header {p q : Packet} {s : V2State}
    (h : q.smb2Header s.pktptr = p.smb2Header s.pktptr) : v2Body q s = v2Body p s := by
  unfold v2Body
  rw [h]

/-- **A pass on a contained header** is the same in all of them. -/
theorem v2Body_congr {p q : Packet} (h : Agree p q) {s : V2State} (h0 : 0 ≤ s.pktptr)
    (hcontained : HeaderContained p s.pktptr) : v2Body q s = v2Body p s := by
  cases hcontained with
  | inl hin => exact v2Body_eq_of_header (smb2Header_congr h h0 hin)
  | inr hbyte =>
    obtain ⟨i, hi, hin, hne⟩ := hbyte
    rw [v2Body_of_not_magic (not_hasMagic_of_byte h h0 hi hin hne),
      v2Body_of_not_magic (not_hasMagic_of_byte (agree_refl p) h0 hi hin hne)]

/-- A chain inside the packet is walked alike, whatever is behind the packet. -/
theorem smbprotoV2Packet_congr {p q : Packet} (h : Agree p q) (hcontained : Contained p)
    (fuel : ℕ) : smbprotoV2Packet q fuel = smbprotoV2Packet p fuel := by
  unfold smbprotoV2Packet
  rw [h.1]
  by_cases hlen : p.bytes < 64
  · rw [if_pos hlen, if_pos hlen]
  · have hheaders := hcontained.resolve_left hlen
    have hloop : loop (v2Body q) fuel ⟨0, toUInt32 p.bytes⟩ =
        loop (v2Body p) fuel ⟨0, toUInt32 p.bytes⟩ := by
      refine loop_congr ?_ fuel
      intro t ht
      have helement := v2Element_of_heads ht
      exact v2Body_congr h (v2Element_nonneg helement) (hheaders _ helement)
    rw [hloop]

/-! ## The dispatcher -/

/-- A packet that does not begin with `0xFF` is one of SMB2. -/
theorem smbprotoPacket_of_v2 {p : Packet} (h : 1 ≤ p.bytes) (hff : p.mem 0 ≠ 0xFF)
    (isclient : Bool) (fuel : ℕ) :
    smbprotoPacket p isclient fuel =
      ⟨(smbprotoV2Packet p fuel).events.map .v2, (smbprotoV2Packet p fuel).result⟩ := by
  unfold smbprotoPacket
  rw [if_neg (by omega), if_neg hff]

/-- The calls are those of the walk. -/
theorem smb2Calls_map_v2 (es : List V2Event) : smb2Calls (es.map .v2) = v2Calls es := by
  unfold smb2Calls v2Calls
  rw [List.filterMap_map]
  apply List.filterMap_congr
  intro e _
  cases e <;> rfl

/-- The same verdict comes with the same number of calls. -/
theorem v2Calls_length_of_same {p q q' : Packet} (hlen : 1 ≤ p.bytes) (hff : p.mem 0 ≠ 0xFF)
    {isclient : Bool} (h : Agree p q) (h' : Agree p q') (hsame : SameVerdict isclient q q')
    (fuel : ℕ) :
    (v2Calls (smbprotoV2Packet q fuel).events).length =
      (v2Calls (smbprotoV2Packet q' fuel).events).length := by
  have hv2 : ∀ r, Agree p r → smbprotoPacket r isclient fuel =
      ⟨(smbprotoV2Packet r fuel).events.map .v2, (smbprotoV2Packet r fuel).result⟩ := by
    intro r hr
    refine smbprotoPacket_of_v2 (by rw [hr.1]; exact hlen) ?_ isclient fuel
    rw [hr.2 0 le_rfl (by omega)]
    exact hff
  have hcalls := congrArg List.length (hsame fuel).2
  rw [hv2 q h, hv2 q' h'] at hcalls
  simpa [smb2Calls_map_v2] using hcalls

/-! ## Elements behind the end -/

/-- After `n` passes and the events `es`, the walk is at `o` in every memory that agrees. -/
def Reached (p : Packet) (o : ℤ) (n : ℕ) (es : List V2Event) (c : ℤ) : Prop :=
  ∀ q, Agree p q → ∀ m,
    (loop (v2Body q) (n + m) ⟨0, toUInt32 p.bytes⟩).events =
      es ++ (loop (v2Body q) m ⟨o, c⟩).events

/-- One pass calls once, if there is the magic. -/
theorem v2Calls_loop_one (p : Packet) (s : V2State) :
    (v2Calls (loop (v2Body p) 1 s).events).length = if HasMagic p s.pktptr then 1 else 0 := by
  rw [loop_one_events]
  by_cases hmagic : HasMagic p s.pktptr
  · rw [if_pos hmagic]
    by_cases hlast : nextCommandAt p s.pktptr = 0
    · rw [v2Body_of_last hmagic hlast]
      rfl
    · rw [v2Body_of_next hmagic hlast]
      rfl
  · rw [if_neg hmagic, v2Body_of_not_magic hmagic]
    rfl

/-- The packet over a memory that goes on differently behind its end. -/
def refill (p : Packet) (rest : ℤ → UInt8) : Packet :=
  { p with mem := fun a => if a < p.bytes then p.mem a else rest a }

/-- A packet with something else behind it agrees with it. -/
theorem agree_refill (p : Packet) (rest : ℤ → UInt8) : Agree p (refill p rest) :=
  ⟨rfl, fun _ _ hi => if_pos hi⟩

/-- Behind the packet there is what has been put there. -/
theorem refill_of_ge {p : Packet} {rest : ℤ → UInt8} {a : ℤ} (h : p.bytes ≤ a) :
    (refill p rest).mem a = rest a :=
  if_neg (not_lt.mpr h)

/-- A zero byte rules the magic out. -/
theorem not_hasMagic_of_zero {p : Packet} {o : ℤ} (h : p.mem (o + 3) = 0) : ¬ HasMagic p o := by
  intro hmagic
  have hwindow : 3 < (window p.mem o 4).length := by simp
  have hbyte := List.getElem_of_eq hmagic hwindow
  rw [getElem_window] at hbyte
  have hzero : p.mem (o + (3 : ℕ)) = 0 := h
  rw [hzero] at hbyte
  have hne : (0 : UInt8) ≠ 0x42 := by decide
  exact hne hbyte

/-- Where no byte of the packet rules the magic out, it can be put there without changing the
packet. -/
theorem magic_of_no_byte {p : Packet} {o : ℤ}
    (h : ∀ (i : ℕ) (hi : i < smb2Magic.length), o + i < p.bytes → p.mem (o + i) = smb2Magic[i])
    {a : ℤ} (ha : a < p.bytes) : store p.mem o smb2Magic a = p.mem a := by
  by_cases hlt : a < o
  · exact store_of_lt _ _ hlt
  · by_cases hin : a < o + smb2Magic.length
    · obtain ⟨i, rfl⟩ : ∃ i : ℕ, a = o + i := ⟨(a - o).toNat, by omega⟩
      have hi : i < smb2Magic.length := by omega
      rw [store_inside _ _ _ i hi, h i hi ha]
    · exact store_of_ge _ _ (not_lt.mp hin)

/-- Where it has been put there is the magic. -/
theorem hasMagic_store (p : Packet) (o : ℤ) :
    HasMagic { p with mem := store p.mem o smb2Magic } o :=
  window_store_self p.mem o smb2Magic

/-- An element with another behind it is one call more. -/
theorem v2Calls_length_of_next {p : Packet} {s : V2State} (hmagic : HasMagic p s.pktptr)
    (hne : nextCommandAt p s.pktptr ≠ 0) (n : ℕ) :
    (v2Calls (loop (v2Body p) (n + 1) s).events).length =
      1 + (v2Calls (loop (v2Body p) n
        ⟨s.pktptr + nextCommandAt p s.pktptr, toUInt32 (s.byteCount - 64)⟩).events).length := by
  rw [loop_succ_of_follows (v2Body_follows_iff.mpr ⟨hmagic, hne, rfl⟩), v2Calls_append,
    List.length_append, v2Body_of_next hmagic hne]
  rfl

/-- Storing a magic behind a header leaves the header's walk as it is. -/
theorem header_of_store_behind {p : Packet} {o d : ℤ} (h : o + 24 ≤ d) :
    (HasMagic { p with mem := store p.mem d smb2Magic } o ↔ HasMagic p o) ∧
      nextCommandAt { p with mem := store p.mem d smb2Magic } o = nextCommandAt p o := by
  constructor
  · unfold HasMagic
    rw [window_store_of_disjoint p.mem smb2Magic (Or.inl (by omega))]
  · unfold nextCommandAt le32
    dsimp only
    rw [store_of_lt _ _ (by omega), store_of_lt _ _ (by omega), store_of_lt _ _ (by omega),
      store_of_lt _ _ (by omega)]

/-- Two memories that agree on the packet, where the element at `o` leads to one that has
the magic in the second memory only. -/
structure Split (p base planted : Packet) (o : ℤ) : Prop where
  agreeBase : Agree p base
  agreePlanted : Agree p planted
  baseMagic : HasMagic base o
  plantedMagic : HasMagic planted o
  baseNext : nextCommandAt base o ≠ 0
  plantedNext : nextCommandAt planted o ≠ 0
  noElement : ¬ HasMagic base (o + nextCommandAt base o)
  elementMagic : HasMagic planted (o + nextCommandAt planted o)

/-- A memory with a 1 at one place behind the end. -/
theorem refill_store_one {p : Packet} {a : ℤ} (h : p.bytes ≤ a) :
    (refill p (store (fun _ => 0) a [1])).mem a = 1 := by
  rw [refill_of_ge h]
  have hstore := store_inside (fun _ => (0 : UInt8)) a [1] 0 Nat.zero_lt_one
  rw [Nat.cast_zero, add_zero] at hstore
  exact hstore

/-- **A cut NextCommand can be made to lead behind the end**: its top byte is 1 in both
memories, and the second has a magic where it then leads to. -/
theorem exists_split {p : Packet} {o : ℤ} (h0 : 0 ≤ o) (hend : p.bytes < o + 24)
    (hwhole : o + 4 ≤ p.bytes)
    (hbytes : ∀ (i : ℕ) (hi : i < smb2Magic.length), o + i < p.bytes → p.mem (o + i) = smb2Magic[i]) :
    ∃ base planted, Split p base planted o := by
  let base := refill p (store (fun _ => 0) (o + 23) [1])
  let d := o + nextCommandAt base o
  let planted : Packet := { base with mem := store base.mem d smb2Magic }
  have hbase : Agree p base := agree_refill p _
  have hone : base.mem (o + 20 + 3) = 1 := by
    rw [show o + 20 + 3 = o + 23 by ring]
    exact refill_store_one (by omega)
  have htop : base.mem (o + 20 + 3) ≠ 0 := by
    rw [hone]
    simp
  have hlarge : 2 ^ 24 ≤ nextCommandAt base o := le32_ge_of_top htop
  have hmagic : HasMagic base o := by
    refine List.ext_getElem (by simp [smb2Magic]) ?_
    intro i hi hi'
    rw [getElem_window, hbase.2 _ (by omega) (by rw [window_length] at hi; omega)]
    exact hbytes i hi' (by rw [window_length] at hi; omega)
  obtain ⟨hmagicIff, hnextEq⟩ := header_of_store_behind (p := base) (o := o) (d := d) (by omega)
  have hne : nextCommandAt base o ≠ 0 := by omega
  refine ⟨base, planted, hbase, ⟨rfl, fun i hi hi' => ?_⟩, hmagic, hmagicIff.mpr hmagic, hne,
    hnextEq ▸ hne, not_hasMagic_of_zero ?_, ?_⟩
  · show store base.mem d smb2Magic i = p.mem i
    rw [store_of_lt _ _ (by omega), hbase.2 i hi hi']
  · show (refill p _).mem _ = 0
    rw [refill_of_ge (by omega), store_of_ge _ _ (by simp; omega)]
  · show HasMagic planted (o + nextCommandAt planted o)
    rw [hnextEq]
    exact hasMagic_store base d

/-- **A header that is not contained splits the verdict** at an element that is reached
in all memories. -/
theorem headerContained_of_reached {p : Packet} {o : ℤ} {n : ℕ} {es : List V2Event} {c : ℤ}
    (hlen : 64 ≤ p.bytes) (hreach : Reached p o n es c)
    (hsame : ∀ q q', Agree p q → Agree p q' → ∀ fuel,
      (v2Calls (smbprotoV2Packet q fuel).events).length =
        (v2Calls (smbprotoV2Packet q' fuel).events).length) :
    HeaderContained p o := by
  by_contra hno
  unfold HeaderContained at hno
  push Not at hno
  obtain ⟨hend, hbytes⟩ := hno
  -- The calls behind `o` are as many in any two memories.
  have hcount : ∀ q q', Agree p q → Agree p q' → ∀ m,
      (v2Calls (loop (v2Body q) m ⟨o, c⟩).events).length =
        (v2Calls (loop (v2Body q') m ⟨o, c⟩).events).length := by
    intro q q' hq hq' m
    have h := hsame q q' hq hq' (n + m)
    rw [smbprotoV2Packet_of_le (by rw [hq.1]; exact hlen),
      smbprotoV2Packet_of_le (by rw [hq'.1]; exact hlen), hq.1, hq'.1, hreach q hq m,
      hreach q' hq' m, v2Calls_append, v2Calls_append, List.length_append,
      List.length_append] at h
    omega
  by_cases hcut : p.bytes < o + 4
  · -- The magic itself is cut: one memory completes it, the other puts zeros there.
    have hagree : Agree p { p with mem := store p.mem o smb2Magic } :=
      ⟨rfl, fun i _ hi => magic_of_no_byte hbytes hi⟩
    have h := hcount _ _ hagree (agree_refill p fun _ => 0) 1
    have hzero : ¬ HasMagic (refill p fun _ => 0) o :=
      not_hasMagic_of_zero (refill_of_ge (by omega))
    rw [v2Calls_loop_one, v2Calls_loop_one, if_pos (hasMagic_store p o), if_neg hzero] at h
    cases h
  · -- NextCommand is cut: the element it leads to can be put behind the end.
    obtain ⟨base, planted, hsplit⟩ := exists_split (by omega) hend (not_lt.mp hcut) hbytes
    have h := hcount planted base hsplit.agreePlanted hsplit.agreeBase (1 + 1)
    rw [v2Calls_length_of_next (s := ⟨o, c⟩) hsplit.plantedMagic hsplit.plantedNext,
      v2Calls_length_of_next (s := ⟨o, c⟩) hsplit.baseMagic hsplit.baseNext, v2Calls_loop_one,
      v2Calls_loop_one, if_pos hsplit.elementMagic, if_neg hsplit.noElement] at h
    omega

/-- Every element up to one that is not contained is reached in all memories. -/
theorem reached_of_v2Element {p : Packet} (hlen : 64 ≤ p.bytes)
    (hsame : ∀ q q', Agree p q → Agree p q' → ∀ fuel,
      (v2Calls (smbprotoV2Packet q fuel).events).length =
        (v2Calls (smbprotoV2Packet q' fuel).events).length)
    {o : ℤ} (h : V2Element p o) : ∃ n es c, Reached p o n es c := by
  induction h with
  | first => exact ⟨0, [], toUInt32 p.bytes, fun q _ m => by rw [Nat.zero_add]; rfl⟩
  | @next o helement hmagic hne ih =>
      obtain ⟨n, es, c, hreach⟩ := ih
      have h0 := v2Element_nonneg helement
      have hcontained := headerContained_of_reached hlen hreach hsame
      refine ⟨n + 1, es ++ (v2Body p ⟨o, c⟩).events, toUInt32 (c - 64), fun q hq m => ?_⟩
      have hbody := v2Body_congr hq (s := ⟨o, c⟩) h0 hcontained
      have hfollows : Follows (v2Body q) ⟨o, c⟩ ⟨o + nextCommandAt p o, toUInt32 (c - 64)⟩ := by
        rw [Follows, hbody]
        exact v2Body_follows_iff.mpr ⟨hmagic, hne, rfl⟩
      rw [show n + 1 + m = n + (m + 1) by omega, hreach q hq, loop_succ_of_follows hfollows, hbody,
        List.append_assoc]

/-! ## The verdict -/

/-- **The exact condition for a verdict of the packet alone.** On a packet that does not
start with `0xFF`, all memories that agree on it give the same result and the same calls
iff the packet is shorter than a header or each of its elements has its header contained. -/
theorem packet_verdict_iff (p : Packet) (isclient : Bool) (hlen : 1 ≤ p.bytes)
    (hff : p.mem 0 ≠ 0xFF) :
    (∀ q q', Agree p q → Agree p q' → SameVerdict isclient q q') ↔ Contained p := by
  constructor
  · intro hsame
    by_cases hshort : p.bytes < 64
    · exact Or.inl hshort
    · have hlengths : ∀ q q', Agree p q → Agree p q' → ∀ fuel,
          (v2Calls (smbprotoV2Packet q fuel).events).length =
            (v2Calls (smbprotoV2Packet q' fuel).events).length :=
        fun q q' hq hq' => v2Calls_length_of_same hlen hff hq hq' (hsame q q' hq hq')
      refine Or.inr fun o helement => ?_
      obtain ⟨n, es, c, hreach⟩ := reached_of_v2Element (not_lt.mp hshort) hlengths helement
      exact headerContained_of_reached (not_lt.mp hshort) hreach hlengths
  · intro hcontained q q' hq hq' fuel
    have hrun : ∀ r, Agree p r → smbprotoPacket r isclient fuel =
        ⟨(smbprotoV2Packet p fuel).events.map .v2, (smbprotoV2Packet p fuel).result⟩ := by
      intro r hr
      rw [smbprotoPacket_of_v2 (by rw [hr.1]; exact hlen) (by rw [hr.2 0 le_rfl (by omega)]; exact hff),
        smbprotoV2Packet_congr hr hcontained]
    rw [hrun q hq, hrun q' hq']
    exact ⟨rfl, rfl⟩

/-- One header, and nothing behind it. -/
theorem packet_verdict_iff_one_header :
    let p := Packet.ofBytes (smb2HeaderBytes 0) (by decide +kernel)
    ∀ q q', Agree p q → Agree p q' → SameVerdict true q q' := by
  intro p
  have hbytes : p.bytes = 64 := by decide +kernel
  have hlast : nextCommandAt p 0 = 0 := by decide +kernel
  have helement : ∀ o, V2Element p o → o = 0 := by
    intro o ho
    induction ho with
    | first => rfl
    | next _ _ hne ih =>
        subst ih
        exact absurd hlast hne
  refine (packet_verdict_iff p true (by omega) (by decide +kernel)).mpr (Or.inr fun o ho => ?_)
  rw [helement o ho]
  exact Or.inl (by omega)

/-- A packet of one header that announces another one right behind the packet. -/
def announcingPacket : Packet := Packet.ofBytes (smb2HeaderBytes 64) (by decide +kernel)

/-- **The verdict on `announcingPacket` is the memory's behind it**: -1 over zeros, 0 when
an older packet has left a magic there. -/
theorem packet_verdict_not_alone :
    ¬ ∀ (p : Packet) (isclient : Bool), 1 ≤ p.bytes → p.mem 0 ≠ 0xFF →
      ∀ q q', Agree p q → Agree p q' → SameVerdict isclient q q' := by
  intro h
  let planted : Packet :=
    { announcingPacket with mem := store announcingPacket.mem 64 smb2Magic }
  have hplanted : Agree announcingPacket planted :=
    ⟨rfl, fun i _ hi => store_of_lt _ _ hi⟩
  have hsame := h announcingPacket true (by decide +kernel) (by decide +kernel)
    announcingPacket planted (agree_refl _) hplanted 2
  have hzeros : (smbprotoPacket announcingPacket true 2).result = some (-1) := by decide +kernel
  have hmagic : (smbprotoPacket planted true 2).result = some 0 := by decide +kernel
  rw [hzeros, hmagic] at hsame
  exact absurd hsame.1 (by decide)

end SmbProxy.Analysis
