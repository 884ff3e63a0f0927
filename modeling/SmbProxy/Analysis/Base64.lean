import SmbProxy.Interface.Base64

/-!
# The base64 round trip

A group of three bytes is a number of 24 bits, its four characters are the digits of that
number in base 64 (`digits`), and the decoder adds them up again. The groups follow
one another in both loops (`encodeLoop_spec`, `decodeLoop_encodeLoop`). What both functions
return is an `int`, so that the round trip ends with texts of 2^31 characters.
-/

set_option autoImplicit false

namespace SmbProxy.Analysis

open SmbProxy.Library SmbProxy.Model SmbProxy.Interface

/-! ## Characters -/

section Characters

variable {urlencode : Bool}

/-- A character of either alphabet has its index as its value. -/
theorem base64Value_alphabet : ∀ i, i < 64 →
    base64Value ((alphabet64 urlencode).getD i 0) = some i := by
  cases urlencode with
  | false => decide
  | true => decide

/-- The bytes of a group as a number. -/
theorem group_eq (b1 b2 b3 : UInt8) : b1.toNat <<< 16 ||| b2.toNat <<< 8 ||| b3.toNat =
    65536 * b1.toNat + 256 * b2.toNat + b3.toNat := by
  have h2 := b2.toNat_lt
  have h3 := b3.toNat_lt
  have hlow : b2.toNat <<< 8 ||| b3.toNat = 256 * b2.toNat + b3.toNat := by
    rw [← Nat.shiftLeft_add_eq_or_of_lt (show b3.toNat < 2 ^ 8 from h3), Nat.shiftLeft_eq]
    omega
  rw [Nat.or_assoc, hlow, ← Nat.shiftLeft_add_eq_or_of_lt (by omega), Nat.shiftLeft_eq]
  omega

/-- The four digits of a group. -/
theorem digits (d : ℕ) : d >>> 18 = d / 262144 ∧ (d >>> 12) &&& 0x3f = d / 4096 % 64 ∧
    (d >>> 6) &&& 0x3f = d / 64 % 64 ∧ d &&& 0x3f = d % 64 := by
  have hmask : ∀ n : ℕ, n &&& 0x3f = n % 64 := fun n => Nat.and_two_pow_sub_one_eq_mod n 6
  refine ⟨Nat.shiftRight_eq_div_pow d 18, ?_, ?_, hmask d⟩
  · rw [hmask, Nat.shiftRight_eq_div_pow]
  · rw [hmask, Nat.shiftRight_eq_div_pow]

/-- What stands for the missing characters of a group. -/
def padding (urlencode : Bool) (n : ℕ) : List UInt8 :=
  if urlencode then [] else List.replicate n 61

/-- A full group becomes four characters. -/
theorem encodeGroup_three (b1 b2 b3 : UInt8) {d : ℕ}
    (hd : d = 65536 * b1.toNat + 256 * b2.toNat + b3.toNat) :
    encodeGroup urlencode false b1 (some b2) (some b3) =
      ([(alphabet64 urlencode).getD (d / 262144) 0, (alphabet64 urlencode).getD (d / 4096 % 64) 0,
        (alphabet64 urlencode).getD (d / 64 % 64) 0, (alphabet64 urlencode).getD (d % 64) 0], 4) := by
  obtain ⟨h1, h2, h3, h4⟩ := digits d
  unfold encodeGroup
  simp only [Option.getD_some, group_eq, ← hd, h1, h2, h3, h4]
  rfl

/-- Two bytes become three characters. -/
theorem encodeGroup_two (b1 b2 : UInt8) {d : ℕ} (hd : d = 65536 * b1.toNat + 256 * b2.toNat) :
    (encodeGroup urlencode false b1 (some b2) none).1 =
      (alphabet64 urlencode).getD (d / 262144) 0 :: (alphabet64 urlencode).getD (d / 4096 % 64) 0 ::
        (alphabet64 urlencode).getD (d / 64 % 64) 0 :: padding urlencode 1 := by
  have hgroup := group_eq b1 b2 0
  have hzero : (0 : UInt8).toNat = 0 := rfl
  rw [hzero, Nat.add_zero, ← hd] at hgroup
  obtain ⟨h1, h2, h3, -⟩ := digits d
  unfold encodeGroup
  simp only [Option.getD_some, Option.getD_none, hzero, hgroup, h1, h2, h3]
  cases urlencode <;> rfl

/-- One byte becomes two characters. -/
theorem encodeGroup_one (b1 : UInt8) {d : ℕ} (hd : d = 65536 * b1.toNat) :
    (encodeGroup urlencode false b1 none none).1 =
      (alphabet64 urlencode).getD (d / 262144) 0 :: (alphabet64 urlencode).getD (d / 4096 % 64) 0 ::
        padding urlencode 2 := by
  have hgroup := group_eq b1 0 0
  have hzero : (0 : UInt8).toNat = 0 := rfl
  rw [hzero, Nat.mul_zero, Nat.add_zero, ← hd] at hgroup
  obtain ⟨h1, h2, -, -⟩ := digits d
  unfold encodeGroup
  simp only [Option.getD_none, hzero, hgroup, h1, h2]
  cases urlencode <;> rfl

end Characters

/-! ## Decoding a group -/

section Groups

variable {urlencode : Bool} {outsize bits outchars i : ℕ} {src : List UInt8}

/-- A character that does not end a group. -/
theorem decodeLoop_cons (houtsize : 4 ≤ outsize) (hi : i < 64) (houtchars : outchars + 1 ≠ 4) :
    decodeLoop outsize ((alphabet64 urlencode).getD i 0 :: src) bits outchars =
      decodeLoop outsize src (64 * (bits + i)) (outchars + 1) := by
  rw [decodeLoop, if_neg (by omega), base64Value_alphabet i hi]
  simp only [if_neg houtchars, Nat.shiftLeft_eq]
  congr 1
  omega

/-- A character that ends a group of three bytes. -/
theorem decodeLoop_last (houtsize : 4 ≤ outsize) (hi : i < 64) (b1 b2 b3 : UInt8)
    (hd : bits + i = 65536 * b1.toNat + 256 * b2.toNat + b3.toNat) :
    decodeLoop outsize ((alphabet64 urlencode).getD i 0 :: src) bits 3 =
      (b1 :: b2 :: b3 :: (decodeLoop outsize src 0 0).1, (decodeLoop outsize src 0 0).2) := by
  have h2 := b2.toNat_lt
  have h3 := b3.toNat_lt
  have hmask : ∀ n : ℕ, n &&& 0xff = n % 256 := fun n => Nat.and_two_pow_sub_one_eq_mod n 8
  rw [decodeLoop, if_neg (by omega), base64Value_alphabet i hi]
  simp only [if_true, hd, hmask, Nat.shiftRight_eq_div_pow]
  have hb1 : (65536 * b1.toNat + 256 * b2.toNat + b3.toNat) / 2 ^ 16 = b1.toNat := by omega
  have hb2 : (65536 * b1.toNat + 256 * b2.toNat + b3.toNat) / 2 ^ 8 % 256 = b2.toNat := by omega
  have hb3 : (65536 * b1.toNat + 256 * b2.toNat + b3.toNat) % 256 = b3.toNat := by omega
  rw [hb1, hb2, hb3, UInt8.ofNat_toNat, UInt8.ofNat_toNat, UInt8.ofNat_toNat]

/-- The padding ends the loop. -/
theorem decodeLoop_padding (houtsize : 4 ≤ outsize) (n : ℕ) :
    decodeLoop outsize (padding urlencode n) bits outchars = decodeTail outsize bits outchars 0 := by
  unfold padding
  cases urlencode with
  | true => rfl
  | false =>
      cases n with
      | zero => rfl
      | succ n =>
          have hvalue : base64Value 61 = none := by decide
          show decodeLoop outsize (61 :: List.replicate n 61) bits outchars = _
          rw [decodeLoop, if_neg (by omega), hvalue]

/-- The characters of a full group become its bytes. -/
theorem decodeLoop_three (houtsize : 4 ≤ outsize) (b1 b2 b3 : UInt8) :
    decodeLoop outsize ((encodeGroup urlencode false b1 (some b2) (some b3)).1 ++ src) 0 0 =
      (b1 :: b2 :: b3 :: (decodeLoop outsize src 0 0).1, (decodeLoop outsize src 0 0).2) := by
  have h1 := b1.toNat_lt
  have h2 := b2.toNat_lt
  have h3 := b3.toNat_lt
  obtain ⟨d, hd⟩ : ∃ d, d = 65536 * b1.toNat + 256 * b2.toNat + b3.toNat := ⟨_, rfl⟩
  rw [encodeGroup_three b1 b2 b3 hd]
  simp only [List.cons_append, List.nil_append]
  rw [decodeLoop_cons houtsize (by omega) (by decide),
    decodeLoop_cons houtsize (by omega) (by decide),
    decodeLoop_cons houtsize (by omega) (by decide),
    decodeLoop_last houtsize (by omega) b1 b2 b3 (by omega)]

/-- The characters of two bytes become them. -/
theorem decodeLoop_two (houtsize : 4 ≤ outsize) (b1 b2 : UInt8) :
    decodeLoop outsize (encodeGroup urlencode false b1 (some b2) none).1 0 0 = ([b1, b2], 0) := by
  have h1 := b1.toNat_lt
  have h2 := b2.toNat_lt
  obtain ⟨d, hd⟩ : ∃ d, d = 65536 * b1.toNat + 256 * b2.toNat := ⟨_, rfl⟩
  have hbits : 64 * (64 * (64 * (0 + d / 262144) + d / 4096 % 64) + d / 64 % 64) = d := by omega
  have hmask : ∀ n : ℕ, n &&& 0xff = n % 256 := fun n => Nat.and_two_pow_sub_one_eq_mod n 8
  have hb1 : d / 2 ^ 16 = b1.toNat := by omega
  have hb2 : d / 2 ^ 8 % 256 = b2.toNat := by omega
  rw [encodeGroup_two b1 b2 hd, decodeLoop_cons houtsize (by omega) (by decide),
    decodeLoop_cons houtsize (by omega) (by decide),
    decodeLoop_cons houtsize (by omega) (by decide), hbits, decodeLoop_padding houtsize]
  unfold decodeTail
  rw [if_neg (by decide), if_neg (by decide), if_pos rfl, if_neg (by omega), hmask,
    Nat.shiftRight_eq_div_pow, Nat.shiftRight_eq_div_pow, hb1, hb2, UInt8.ofNat_toNat,
    UInt8.ofNat_toNat]

/-- The characters of one byte become it. -/
theorem decodeLoop_one (houtsize : 4 ≤ outsize) (b1 : UInt8) :
    decodeLoop outsize (encodeGroup urlencode false b1 none none).1 0 0 = ([b1], 0) := by
  have h1 := b1.toNat_lt
  obtain ⟨d, hd⟩ : ∃ d, d = 65536 * b1.toNat := ⟨_, rfl⟩
  have hbits : 64 * (64 * (0 + d / 262144) + d / 4096 % 64) / 2 ^ 10 = b1.toNat := by omega
  rw [encodeGroup_one b1 hd, decodeLoop_cons houtsize (by omega) (by decide),
    decodeLoop_cons houtsize (by omega) (by decide), decodeLoop_padding houtsize]
  unfold decodeTail
  rw [if_neg (by decide), if_pos rfl, if_neg (by omega), Nat.shiftRight_eq_div_pow, hbits,
    UInt8.ofNat_toNat]

end Groups

/-! ## All groups -/

section RoundTrip

variable {urlencode : Bool} {outsize room j : ℕ} {src : List UInt8}

/-- With room for all groups, the whole source is encoded. -/
theorem encodeLoop_spec (urlencode : Bool) (hroom : j + 4 * ((src.length + 2) / 3) ≤ room + 3) :
    (encodeLoop urlencode false room j src).2 = true ∧
      (encodeLoop urlencode false room j src).1.length = encodedLength urlencode src.length := by
  fun_induction encodeLoop urlencode false room j src with
  | case1 j =>
      refine ⟨rfl, ?_⟩
      cases urlencode with
      | false => rfl
      | true => rfl
  | case2 j b1 hlt =>
      rw [encodeGroup_one b1 rfl]
      refine ⟨rfl, ?_⟩
      cases urlencode with
      | false => simp [padding, encodedLength]
      | true => simp [padding, encodedLength]
  | case3 j b1 hge => exact absurd (show j < room by simp at hroom; omega) hge
  | case4 j b1 b2 hlt =>
      rw [encodeGroup_two b1 b2 rfl]
      refine ⟨rfl, ?_⟩
      cases urlencode with
      | false => simp [padding, encodedLength]
      | true => simp [padding, encodedLength]
  | case5 j b1 b2 hge => exact absurd (show j < room by simp at hroom; omega) hge
  | case6 j b1 b2 b3 src hlt text i hgroup rest whole hloop ih =>
      rw [encodeGroup_three b1 b2 b3 rfl] at hgroup
      cases hgroup
      simp only [List.length_cons] at hroom
      obtain ⟨hwhole, hlength⟩ := ih (by omega)
      rw [hloop] at hwhole hlength
      refine ⟨hwhole, ?_⟩
      simp only [List.length_append, List.length_cons, List.length_nil]
      unfold encodedLength at hlength ⊢
      dsimp only at hlength
      split_ifs at hlength ⊢
      · omega
      · omega
  | case7 j b1 b2 b3 src hge =>
      simp only [List.length_cons] at hroom
      exact absurd (show j < room by omega) hge

/-- The text of a whole source is decoded. -/
theorem decodeLoop_encodeLoop (houtsize : 4 ≤ outsize)
    (hwhole : (encodeLoop urlencode false room j src).2 = true) :
    decodeLoop outsize (encodeLoop urlencode false room j src).1 0 0 = (src, 0) := by
  fun_induction encodeLoop urlencode false room j src with
  | case1 j => rfl
  | case2 j b1 hlt => exact decodeLoop_one houtsize b1
  | case3 j b1 hge => cases hwhole
  | case4 j b1 b2 hlt => exact decodeLoop_two houtsize b1 b2
  | case5 j b1 b2 hge => cases hwhole
  | case6 j b1 b2 b3 src hlt text i hgroup rest whole hloop ih =>
      have hrest := ih (by rw [hloop]; exact hwhole)
      have htext : (encodeGroup urlencode false b1 (some b2) (some b3)).1 = text := by rw [hgroup]
      rw [hloop] at hrest
      rw [← htext, decodeLoop_three houtsize, hrest]
  | case7 j b1 b2 b3 src hge => cases hwhole

/-- A number of bytes is itself as an `int` below 2^31. -/
theorem toInt32_natCast (n : ℕ) : toInt32 n = n ↔ n < 2 ^ 31 := by
  unfold toInt32
  split_ifs <;> omega

/-- A text has no fewer characters than its source has bytes. -/
theorem le_encodedLength (urlencode : Bool) (n : ℕ) : n ≤ encodedLength urlencode n := by
  unfold encodedLength
  split_ifs
  · omega
  · omega

/-- What both calls store does not depend on what they return. -/
theorem encode_decode (urlencode : Bool) {outsize' : ℕ} (src : List UInt8)
    (houtsize : 4 ≤ outsize ∧ 4 * ((src.length + 2) / 3) + 1 ≤ outsize) (houtsize' : 4 ≤ outsize') :
    (butilBase64Encode outsize src urlencode false).out.length = encodedLength urlencode src.length ∧
      (butilBase64Encode outsize src urlencode false).result =
        toInt32 (encodedLength urlencode src.length) ∧
      (butilBase64Decode outsize' (butilBase64Encode outsize src urlencode false).out).out = src ∧
      (butilBase64Decode outsize' (butilBase64Encode outsize src urlencode false).out).result =
        toInt32 src.length := by
  have hroom : (if 4 ≤ outsize then outsize - 4 else 2 ^ 64 + outsize - 4) = outsize - 4 :=
    if_pos houtsize.1
  have hfits : 0 + 4 * ((src.length + 2) / 3) ≤ outsize - 4 + 3 := by omega
  obtain ⟨hwhole, hlength⟩ := encodeLoop_spec urlencode hfits
  have hdecode := decodeLoop_encodeLoop houtsize' hwhole
  have hout : (butilBase64Encode outsize src urlencode false).out =
      (encodeLoop urlencode false (outsize - 4) 0 src).1 := by
    unfold butilBase64Encode
    rw [hroom]
  refine ⟨?_, ?_, ?_, ?_⟩
  · rw [hout, hlength]
  · unfold butilBase64Encode
    simp only [hroom, hwhole, if_true, hlength]
  · unfold butilBase64Decode
    rw [hout, hdecode]
  · unfold butilBase64Decode
    simp only [hout, hdecode, ne_eq, not_true_eq_false, if_false]

/-- **The round trip.** The bytes come back whatever their number is, and the numbers that are
returned are right as long as the length of the text is an `int`. -/
theorem base64_round_trip_iff (urlencode : Bool) {outsize outsize' : ℕ} (src : List UInt8)
    (houtsize : max 4 (4 * ((src.length + 2) / 3) + 1) ≤ outsize)
    (houtsize' : max 4 (src.length + 1) ≤ outsize') :
    (RoundTrips urlencode outsize outsize' src ↔ encodedLength urlencode src.length < 2 ^ 31) ∧
      (butilBase64Decode outsize' (butilBase64Encode outsize src urlencode false).out).out = src := by
  obtain ⟨hlength, hencoded, hbytes, hdecoded⟩ := encode_decode urlencode src
    (max_le_iff.mp houtsize) (max_le_iff.mp houtsize').1
  have hle := le_encodedLength urlencode src.length
  refine ⟨?_, hbytes⟩
  constructor
  · intro h
    have hresult := h.encoded
    rw [hencoded, hlength] at hresult
    exact (toInt32_natCast _).mp hresult
  · intro hint
    refine ⟨?_, ?_, hbytes⟩
    · rw [hencoded, hlength]
      exact (toInt32_natCast _).mpr hint
    · rw [hdecoded]
      exact (toInt32_natCast _).mpr (by omega)

/-- Two bytes. -/
theorem base64_round_trip_two : RoundTrips false 5 4 [0xff, 0x3e] :=
  (base64_round_trip_iff false [0xff, 0x3e] (by decide) (by decide)).1.mpr (by decide)

/-- The decoder returns the length of 2^31 bytes as a negative number. -/
theorem not_roundTrips_long :
    ¬ RoundTrips true (2 ^ 32) (2 ^ 32) (List.replicate (2 ^ 31) 0) := by
  intro h
  have hlength : (List.replicate (2 ^ 31) (0 : UInt8)).length = 2 ^ 31 := List.length_replicate
  have hfour : 4 ≤ 2 ^ 32 := by simp
  have hroom : 4 * (((List.replicate (2 ^ 31) (0 : UInt8)).length + 2) / 3) + 1 ≤ 2 ^ 32 := by
    rw [hlength]
    decide
  obtain ⟨-, -, -, hdecoded⟩ := encode_decode true (List.replicate (2 ^ 31) (0 : UInt8))
    ⟨hfour, hroom⟩ hfour
  have hresult := h.decoded
  rw [hdecoded] at hresult
  have hint := (toInt32_natCast _).mp hresult
  rw [hlength] at hint
  exact absurd hint (by decide)

end RoundTrip

end SmbProxy.Analysis
