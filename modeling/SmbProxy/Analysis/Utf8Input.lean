import SmbProxy.Interface.Utf8Input
import SmbProxy.Analysis.Utf8

/-!
# The decoder on any bytes

The lead byte alone says how long a sequence is, and the decoder reads that many bytes or
all there are (`decode_outcome`). Of its exits at the end of the buffer the one behind a lead
byte of two returns `-1` in an unsigned type (`claims_inside_iff`).

It takes the payload bits out of whatever bytes it finds. So it accepts more than the encoder
makes, and what the encoder makes is what `WellFormedSequence` describes
(`wellFormed_iff_encoded`).
-/

set_option autoImplicit false

namespace SmbProxy.Analysis

open SmbProxy.Library SmbProxy.Model SmbProxy.Interface

/-! ## The end of the buffer -/

section End

variable {utfbuf : ℕ → UInt8} {nutf : ℕ}

/-- With all continuation bytes there, they are read and counted. -/
theorem continueUtf8_of_le {dangling b i : ℕ} {shifts : List ℕ} (h : shifts.length ≤ nutf) :
    (continueUtf8 utfbuf dangling shifts b i nutf).result = i + shifts.length ∧
      (continueUtf8 utfbuf dangling shifts b i nutf).read = i + shifts.length := by
  induction shifts generalizing b i nutf with
  | nil => exact ⟨rfl, rfl⟩
  | cons shift shifts ih =>
      rw [List.length_cons] at h ⊢
      rw [continueUtf8_cons (by omega)]
      obtain ⟨hresult, hread⟩ := @ih (nutf - 1)
        (b ||| ((utfbuf i).toNat &&& 0x3f) <<< shift) (i + 1) (by omega)
      rw [hresult, hread]
      exact ⟨by omega, by omega⟩

/-- With too few bytes, those that are there are read, and the result is that of a sequence cut off.
-/
theorem continueUtf8_of_lt {dangling b i : ℕ} {shifts : List ℕ} (h : nutf < shifts.length) :
    (continueUtf8 utfbuf dangling shifts b i nutf).result = dangling ∧
      (continueUtf8 utfbuf dangling shifts b i nutf).read = i + nutf := by
  induction shifts generalizing b i nutf with
  | nil => exact absurd h (Nat.not_lt_zero nutf)
  | cons shift shifts ih =>
      rw [List.length_cons] at h
      by_cases hnone : nutf = 0
      · rw [continueUtf8, if_pos (by omega), hnone]
        exact ⟨rfl, rfl⟩
      · rw [continueUtf8_cons (by omega)]
        obtain ⟨hresult, hread⟩ := @ih (nutf - 1)
          (b ||| ((utfbuf i).toNat &&& 0x3f) <<< shift) (i + 1) (by omega)
        rw [hresult, hread]
        exact ⟨rfl, by omega⟩

/-- What the decoder does with a sequence, by its length. -/
theorem decode_eq_of_length (utfbuf : ℕ → UInt8) (nutf : ℕ) :
    (sequenceLength (utfbuf 0).toNat = 1 ∧ ∃ b,
      butilUtf8Decode utfbuf nutf = { result := 1, unicode := some b, read := 1 }) ∨
    (∃ shifts b dangling, sequenceLength (utfbuf 0).toNat = shifts.length + 1 ∧
      dangling = (if sequenceLength (utfbuf 0).toNat = 2 then 2 ^ 64 - 1 else 0) ∧
      butilUtf8Decode utfbuf nutf = continueUtf8 utfbuf dangling shifts b 1 (decrement nutf)) := by
  unfold butilUtf8Decode sequenceLength
  dsimp only
  by_cases hone : (utfbuf 0).toNat &&& 0x80 = 0
  · rw [if_pos hone, if_neg (not_not.mpr hone)]
    exact Or.inl ⟨rfl, _, rfl⟩
  rw [if_neg hone, if_pos hone]
  refine Or.inr ?_
  by_cases htwo : (utfbuf 0).toNat &&& 0x20 = 0
  · rw [if_pos htwo, if_neg (not_not.mpr htwo)]
    exact ⟨[0], _, _, rfl, rfl, rfl⟩
  rw [if_neg htwo, if_pos htwo]
  by_cases hthree : (utfbuf 0).toNat &&& 0x10 = 0
  · rw [if_pos hthree, if_neg (not_not.mpr hthree)]
    exact ⟨[6, 0], _, _, rfl, rfl, rfl⟩
  · rw [if_neg hthree, if_pos hthree]
    exact ⟨[12, 6, 0], _, _, rfl, rfl, rfl⟩

/-- **A call reads the whole sequence, or all the bytes there are.** -/
theorem decode_outcome (hnutf : 1 ≤ nutf) :
    (sequenceLength (utfbuf 0).toNat ≤ nutf ∧
      (butilUtf8Decode utfbuf nutf).result = sequenceLength (utfbuf 0).toNat ∧
      (butilUtf8Decode utfbuf nutf).read = sequenceLength (utfbuf 0).toNat) ∨
    (nutf < sequenceLength (utfbuf 0).toNat ∧
      (butilUtf8Decode utfbuf nutf).result =
        (if sequenceLength (utfbuf 0).toNat = 2 then 2 ^ 64 - 1 else 0) ∧
      (butilUtf8Decode utfbuf nutf).read = nutf) := by
  have hdecrement : decrement nutf = nutf - 1 := if_neg (by omega)
  rcases decode_eq_of_length utfbuf nutf with ⟨hlength, b, hcall⟩ |
    ⟨shifts, b, dangling, hlength, hdangling, hcall⟩
  · rw [hcall, hlength]
    exact Or.inl ⟨hnutf, rfl, rfl⟩
  · rw [hcall, hdecrement, ← hdangling, hlength]
    by_cases hle : shifts.length ≤ nutf - 1
    · obtain ⟨hresult, hread⟩ := @continueUtf8_of_le utfbuf (nutf - 1) dangling b 1 shifts hle
      rw [hresult, hread]
      exact Or.inl ⟨by omega, by omega, by omega⟩
    · obtain ⟨hresult, hread⟩ :=
        @continueUtf8_of_lt utfbuf (nutf - 1) dangling b 1 shifts (by omega)
      rw [hresult, hread]
      exact Or.inr ⟨by omega, rfl, by omega⟩

/-- The count is in the buffer unless a lone lead byte of two is left. -/
theorem result_le_iff (hnutf : 1 ≤ nutf) :
    (butilUtf8Decode utfbuf nutf).result ≤ nutf ↔ ¬ DanglingTwo utfbuf nutf := by
  unfold DanglingTwo
  rcases @decode_outcome utfbuf nutf hnutf with ⟨hle, hresult, -⟩ | ⟨hlt, hresult, -⟩
  · rw [hresult]
    exact iff_of_true hle (by omega)
  · rw [hresult]
    split_ifs with htwo
    · refine iff_of_false ?_ (not_not.mpr ⟨by omega, htwo⟩)
      omega
    · exact iff_of_true (Nat.zero_le nutf) (fun h => htwo h.2)

/-- **A call stays inside its bytes** unless a lone lead byte of two is left. -/
theorem claimsInside_iff (hnutf : 1 ≤ nutf) :
    ClaimsInside utfbuf nutf ↔ ¬ DanglingTwo utfbuf nutf := by
  rw [← result_le_iff hnutf]
  refine ⟨fun h => h.count, fun hcount => ?_⟩
  rcases @decode_outcome utfbuf nutf hnutf with ⟨hle, hresult, hread⟩ | ⟨hlt, hresult, hread⟩
  · exact ⟨by omega, hcount, fun hlt => absurd hle (by omega)⟩
  · refine ⟨by omega, hcount, fun _ => ?_⟩
    rw [hresult] at hcount ⊢
    split_ifs at hcount ⊢ with htwo
    · omega
    · rfl

/-- A step takes the caller out of the buffer exactly at a lone lead byte of two. -/
theorem callerStep_le_iff {pos : ℕ} (hpos : pos ≤ nutf) (call : Unit) :
    callerStep utfbuf nutf pos call ≤ nutf ↔ NoDanglingTwo utfbuf nutf pos call := by
  unfold callerStep NoDanglingTwo
  by_cases hlt : pos < nutf
  · rw [if_pos hlt, imp_iff_right hlt,
      ← @result_le_iff (fun i => utfbuf (pos + i)) (nutf - pos) (by omega)]
    omega
  · rw [if_neg hlt]
    exact iff_of_true hpos fun h => absurd h hlt

/-- **When the decoder stays in its buffer**: a call does unless it is given one byte that
leads a sequence of two, and a caller that advances by the results does unless it comes to
such a byte at the end. -/
theorem claims_inside_iff (hnutf : 1 ≤ nutf) :
    (ClaimsInside utfbuf nutf ↔ ¬ DanglingTwo utfbuf nutf) ∧
      ∀ calls : List Unit,
        (∀ before, before <+: calls → run (callerStep utfbuf nutf) 0 before ≤ nutf) ↔
          Along (callerStep utfbuf nutf) (NoDanglingTwo utfbuf nutf) 0 calls := by
  refine ⟨claimsInside_iff hnutf, fun calls => ?_⟩
  exact run_invariant_iff (NoDanglingTwo utfbuf nutf) (fun pos => pos ≤ nutf)
    (fun pos call hpos => callerStep_le_iff hpos call) (Nat.zero_le nutf) calls

/-- `E2 82 AC 41`, with its first sequence cut off and as a whole. -/
theorem claims_inside_euro :
    let utfbuf : ℕ → UInt8 := fun i => [0xE2, 0x82, 0xAC, 0x41].getD i 0
    ClaimsInside utfbuf 2 ∧ ∀ calls, run (callerStep utfbuf 4) 0 calls ≤ 4 := by
  intro utfbuf
  constructor
  · apply (claims_inside_iff (by decide)).1.mpr
    rintro ⟨hone, -⟩
    cases hone
  · intro calls
    refine ((claims_inside_iff (by decide)).2 calls).mpr ?_ calls List.prefix_rfl
    apply along_of_forall
    rintro _ - pos hpos ⟨hone, htwo⟩
    obtain rfl : pos = 3 := by omega
    exact absurd htwo (by decide)

/-- **A lead byte of two at the end is claimed with `2 ^ 64 - 1` bytes.** -/
theorem not_claims_inside_two : ¬ ∀ (utfbuf : ℕ → UInt8) (nutf : ℕ), 1 ≤ nutf →
    ClaimsInside utfbuf nutf := by
  intro h
  have hcount := (h (fun _ => 0xC3) 1 le_rfl).count
  exact absurd hcount (by decide)

end End

/-! ## The bytes of a character -/

section Characters

variable {c : ℕ}

/-- A mark above the bits of a number is added to it. -/
theorem mark_add (bits : ℕ) {mark r : ℕ} (hmark : 2 ^ bits ∣ mark) (h : r < 2 ^ bits) :
    mark ||| r = mark + r := by
  obtain ⟨k, rfl⟩ := hmark
  exact (Nat.two_pow_add_eq_or_of_lt h k).symm

/-- The bits of a continuation byte. -/
theorem continuation_add (n : ℕ) : 0x80 ||| n &&& 0x3F = 0x80 + n % 64 := by
  calc
    0x80 ||| n &&& 0x3F = 0x80 ||| n % 64 :=
      congrArg (0x80 ||| ·) (Nat.and_two_pow_sub_one_eq_mod n 6)
    _ = 0x80 + n % 64 := mark_add 6 (by decide) (by omega)

/-- The encoding of a character of one byte. -/
theorem encode_one (h : c < 0x80) : butilUtf8Encode c = [UInt8.ofNat c] := by
  have hmask : c &&& 0xFF = c := by
    rw [Nat.and_two_pow_sub_one_eq_mod c 8]
    omega
  unfold butilUtf8Encode
  rw [if_pos h, hmask]

/-- The encoding of a character of two bytes. -/
theorem encode_two (h : 0x80 ≤ c) (hlt : c < 0x800) :
    butilUtf8Encode c = [UInt8.ofNat (0xC0 + c / 64), UInt8.ofNat (0x80 + c % 64)] := by
  unfold butilUtf8Encode
  rw [if_neg (by omega), if_pos hlt, continuation_add, Nat.shiftRight_eq_div_pow,
    mark_add 5 (by decide) (by omega)]

/-- The encoding of a character of three bytes. -/
theorem encode_three (h : 0x800 ≤ c) (hlt : c < 0x10000) :
    butilUtf8Encode c =
      [UInt8.ofNat (0xE0 + c / 4096), UInt8.ofNat (0x80 + c / 64 % 64),
        UInt8.ofNat (0x80 + c % 64)] := by
  unfold butilUtf8Encode
  rw [if_neg (by omega), if_neg (by omega), if_pos hlt, continuation_add, continuation_add,
    Nat.shiftRight_eq_div_pow, Nat.shiftRight_eq_div_pow, mark_add 4 (by decide) (by omega)]

/-- The encoding of a character of four bytes. -/
theorem encode_four (h : 0x10000 ≤ c) (hlt : c < 0x200000) :
    butilUtf8Encode c =
      [UInt8.ofNat (0xF0 + c / 262144), UInt8.ofNat (0x80 + c / 4096 % 64),
        UInt8.ofNat (0x80 + c / 64 % 64), UInt8.ofNat (0x80 + c % 64)] := by
  unfold butilUtf8Encode
  rw [if_neg (by omega), if_neg (by omega), if_neg (by omega), if_pos hlt, continuation_add,
    continuation_add, continuation_add, Nat.shiftRight_eq_div_pow, Nat.shiftRight_eq_div_pow,
    Nat.shiftRight_eq_div_pow, mark_add 3 (by decide) (by omega)]

/-- What is encoded is well formed. -/
theorem wellFormed_encode (hc : c < 0x200000) : WellFormedSequence (butilUtf8Encode c) := by
  by_cases hone : c < 0x80
  · rw [encode_one hone]
    simp only [WellFormedSequence, UInt8.toNat_ofNat']
    omega
  by_cases htwo : c < 0x800
  · rw [encode_two (by omega) htwo]
    simp only [WellFormedSequence, Continuation, UInt8.toNat_ofNat']
    omega
  by_cases hthree : c < 0x10000
  · rw [encode_three (by omega) hthree]
    simp only [WellFormedSequence, Continuation, UInt8.toNat_ofNat']
    omega
  · rw [encode_four (by omega) hc]
    simp only [WellFormedSequence, Continuation, UInt8.toNat_ofNat']
    omega

/-- A byte is known from its number. -/
theorem ofNat_eq {n : ℕ} {b : UInt8} (h : n = b.toNat) : UInt8.ofNat n = b := by
  rw [h]
  exact UInt8.ofNat_toNat

/-- A well-formed sequence is what its payload is encoded to. -/
theorem exists_encode {bytes : List UInt8} (h : WellFormedSequence bytes) :
    ∃ c, c < 0x200000 ∧ butilUtf8Encode c = bytes := by
  match bytes, h with
  | [b], h =>
      have hb : b.toNat < 0x80 := h
      refine ⟨b.toNat, by omega, ?_⟩
      rw [encode_one hb, ofNat_eq rfl]
  | [b, d], h =>
      obtain ⟨hge, hlt, hd⟩ := h
      unfold Continuation at hd
      refine ⟨64 * (b.toNat - 0xC0) + (d.toNat - 0x80), by omega, ?_⟩
      rw [encode_two (by omega) (by omega), ofNat_eq (b := b) (by omega),
        ofNat_eq (b := d) (by omega)]
  | [b, d, e], h =>
      obtain ⟨hge, hlt, hlow, hd, he⟩ := h
      unfold Continuation at hd he
      refine ⟨4096 * (b.toNat - 0xE0) + 64 * (d.toNat - 0x80) + (e.toNat - 0x80), by omega, ?_⟩
      rw [encode_three (by omega) (by omega), ofNat_eq (b := b) (by omega),
        ofNat_eq (b := d) (by omega), ofNat_eq (b := e) (by omega)]
  | [b, d, e, f], h =>
      obtain ⟨hge, hlt, hlow, hd, he, hf⟩ := h
      unfold Continuation at hd he hf
      refine ⟨262144 * (b.toNat - 0xF0) + 4096 * (d.toNat - 0x80) + 64 * (e.toNat - 0x80) +
        (f.toNat - 0x80), by omega, ?_⟩
      rw [encode_four (by omega) (by omega), ofNat_eq (b := b) (by omega),
        ofNat_eq (b := d) (by omega), ofNat_eq (b := e) (by omega), ofNat_eq (b := f) (by omega)]

/-- **The well-formed sequences are the encodings.** -/
theorem wellFormed_iff_encoded (bytes : List UInt8) :
    WellFormedSequence bytes ↔ ∃ c, c < 0x200000 ∧ butilUtf8Encode c = bytes := by
  constructor
  · exact exists_encode
  · rintro ⟨c, hc, rfl⟩
    exact wellFormed_encode hc

end Characters

/-! ## What is accepted -/

section Accepted

variable {utfbuf : ℕ → UInt8} {nutf n c : ℕ}

/-- A buffer begins with its first bytes. -/
theorem begins_firstBytes (utfbuf : ℕ → UInt8) (n : ℕ) : Begins utfbuf (firstBytes utfbuf n) := by
  intro i h
  simp [firstBytes]

/-- The first `n` bytes are `n`. -/
theorem length_firstBytes (utfbuf : ℕ → UInt8) (n : ℕ) : (firstBytes utfbuf n).length = n := by
  simp [firstBytes]

/-- What is encoded at all is below `0x200000`. -/
theorem lt_of_encode_ne_nil (h : butilUtf8Encode c ≠ []) : c < 0x200000 := by
  by_contra hge
  apply h
  unfold butilUtf8Encode
  rw [if_neg (by omega), if_neg (by omega), if_neg (by omega), if_neg hge]

/-- **When an accepted character is what its bytes encode**: if and only if the bytes are a
well-formed sequence. -/
theorem accepts_encoded_iff (h : Accepts utfbuf nutf n c) :
    butilUtf8Encode c = firstBytes utfbuf n ↔ WellFormedSequence (firstBytes utfbuf n) := by
  have hlength := length_firstBytes utfbuf n
  constructor
  · intro hencode
    have hne : butilUtf8Encode c ≠ [] := by
      intro hnil
      rw [← hencode, hnil] at hlength
      exact absurd h.pos (by rw [← hlength]; exact Nat.not_succ_le_zero 0)
    exact (wellFormed_iff_encoded _).mpr ⟨c, lt_of_encode_ne_nil hne, hencode⟩
  · intro hwf
    obtain ⟨c', hc', hencode⟩ := (wellFormed_iff_encoded _).mp hwf
    have hbegins := begins_firstBytes utfbuf n
    rw [← hencode] at hbegins hlength
    have hcall := @decode_encode utfbuf nutf c' hc' hbegins (by rw [hlength]; exact h.inside)
    have hunicode : some c' = some c := by rw [← h.unicode, hcall]; rfl
    cases hunicode
    exact hencode

/-- `C3 A9` in a buffer of three bytes. -/
theorem accepts_encoded_two :
    butilUtf8Encode 0xE9 = firstBytes (fun i => [0xC3, 0xA9].getD i 0) 2 := by
  have haccepts : Accepts (fun i => [0xC3, 0xA9].getD i 0) 3 2 0xE9 :=
    ⟨by decide, by decide, by decide, by decide⟩
  apply (accepts_encoded_iff haccepts).mpr
  show 0xC2 ≤ (0xC3 : UInt8).toNat ∧ (0xC3 : UInt8).toNat < 0xE0 ∧ Continuation 0xA9
  exact ⟨by decide, by decide, by decide, by decide⟩

/-- **An overlong form is accepted**: `C0 80` for the code point 0. -/
theorem not_accepts_encoded_overlong : ¬ ∀ (utfbuf : ℕ → UInt8) (nutf n c : ℕ),
    Accepts utfbuf nutf n c → butilUtf8Encode c = firstBytes utfbuf n := by
  intro h
  have hencode := h (fun i => [0xC0, 0x80].getD i 0) 2 2 0
    ⟨by decide, by decide, by decide, by decide⟩
  exact absurd hencode (by decide)

end Accepted

end SmbProxy.Analysis
