import SmbProxy.Analysis.Base64
import SmbProxy.Interface.Base64Number
import Mathlib.Tactic.NormNum

/-!
# Base64 as a change of radix

The decoder keeps the digits of the group it is in as one number, shifted by the next digit
(`decodeLoop_number`), and stores a group as the three digits of that number in base 256. What
is left at the end of the text is shifted back by the bits that do not fill a byte. The encoder
takes the same way back (`encodeLoop_number`).
-/

set_option autoImplicit false

namespace SmbProxy.Analysis

open SmbProxy.Library SmbProxy.Model SmbProxy.Interface

/-! ## Decoding -/

section Decoding

variable {outsize : ℕ} {src : List UInt8}

/-- The value of a character has six bits. -/
theorem base64Value_lt {c : UInt8} {v : ℕ} (h : base64Value c = some v) : v < 64 := by
  unfold base64Value at h
  simp only [UInt8.le_iff_toNat_le] at h
  split_ifs at h with h1 h2 h3 h4 h5 <;> cases h
  · have hupper : c.toNat ≤ 90 := h1.2
    omega
  · have hupper : c.toNat ≤ 122 := h2.2
    omega
  · have hupper : c.toNat ≤ 57 := h3.2
    omega
  · decide
  · decide

/-- The lowest byte. -/
theorem mask_byte (n : ℕ) : n &&& 0xff = n % 256 := Nat.and_two_pow_sub_one_eq_mod n 8

/-- A byte that is cut out by its conversion. -/
theorem shift_byte (n k : ℕ) : (UInt8.ofNat (n >>> k)).toNat = n / 2 ^ k % 256 := by
  rw [UInt8.toNat_ofNat', Nat.shiftRight_eq_div_pow]

/-- A byte that is cut out by its mask. -/
theorem shift_mask_byte (n k : ℕ) : (UInt8.ofNat ((n >>> k) &&& 0xff)).toNat = n / 2 ^ k % 256 := by
  calc
    (UInt8.ofNat ((n >>> k) &&& 0xff)).toNat = ((n >>> k) &&& 0xff) % 256 := UInt8.toNat_ofNat'
    _ = n >>> k % 256 % 256 := by rw [mask_byte]
    _ = n / 2 ^ k % 256 := by rw [Nat.mod_mod, Nat.shiftRight_eq_div_pow]

/-- What is stored of a group that is not full. -/
theorem decodeTail_number (houtsize : 4 ≤ outsize) {group : List ℕ} (hlength : group.length < 4)
    (hdigits : ∀ v ∈ group, v < 64) :
    (decodeTail outsize (64 * bigEndian 64 group) group.length 0).1.length =
        6 * group.length / 8 ∧
      bigEndian 256 (octets (decodeTail outsize (64 * bigEndian 64 group) group.length 0).1) =
        bigEndian 64 group / 2 ^ (6 * group.length % 8) ∧
      (decodeTail outsize (64 * bigEndian 64 group) group.length 0).2 =
        if group.length % 4 = 1 then 1 else 0 := by
  have hlt := bigEndian_lt (by decide) hdigits
  unfold decodeTail
  obtain hnone | hone | htwo | hthree : group.length = 0 ∨ group.length = 1 ∨ group.length = 2 ∨
      group.length = 3 := by
    omega
  · rw [hnone]
    rw [hnone] at hlt
    have hzero : bigEndian 64 group = 0 := by omega
    rw [hzero]
    exact ⟨rfl, rfl, rfl⟩
  · rw [hone]
    rw [hone] at hlt
    have hzero : bigEndian 64 group / 2 ^ (6 * 1 % 8) = 0 := Nat.div_eq_of_lt hlt
    rw [hzero]
    exact ⟨rfl, rfl, rfl⟩
  · rw [htwo]
    rw [htwo] at hlt
    rw [if_neg (by decide), if_pos rfl, if_neg (by omega)]
    refine ⟨rfl, ?_, rfl⟩
    show bigEndian 256 [(UInt8.ofNat ((64 * bigEndian 64 group) >>> 10)).toNat] =
      bigEndian 64 group / 16
    rw [bigEndian_singleton, shift_byte]
    omega
  · rw [hthree]
    rw [hthree] at hlt
    rw [if_neg (by decide), if_neg (by decide), if_pos rfl, if_neg (by omega)]
    refine ⟨rfl, ?_, rfl⟩
    show bigEndian 256 [(UInt8.ofNat ((64 * bigEndian 64 group) >>> 16)).toNat,
      (UInt8.ofNat (((64 * bigEndian 64 group) >>> 8) &&& 0xff)).toNat] = bigEndian 64 group / 4
    rw [bigEndian_cons, bigEndian_singleton, shift_byte, shift_mask_byte]
    simp only [List.length_singleton, pow_one]
    omega

/-- Three bytes in front of others. -/
theorem octets_three (b1 b2 b3 : UInt8) (rest : List UInt8) :
    bigEndian 256 (octets (b1 :: b2 :: b3 :: rest)) =
      2 ^ (8 * rest.length) * (65536 * b1.toNat + 256 * b2.toNat + b3.toNat) +
        bigEndian 256 (octets rest) := by
  have hpow : (256 : ℕ) ^ rest.length = 2 ^ (8 * rest.length) := calc
    (256 : ℕ) ^ rest.length = (2 ^ 8) ^ rest.length := by norm_num
    _ = 2 ^ (8 * rest.length) := (pow_mul 2 8 rest.length).symm
  unfold octets
  simp only [List.map_cons, bigEndian_cons, List.length_cons, List.length_map,
    pow_succ 256 (rest.length + 1), pow_succ 256 rest.length, hpow]
  ring

/-- A full group is stored as the three digits of its number. -/
theorem octets_group {n : ℕ} (hn : n < 2 ^ 24) (rest : List UInt8) :
    bigEndian 256 (octets (UInt8.ofNat (n >>> 16) :: UInt8.ofNat ((n >>> 8) &&& 0xff) ::
        UInt8.ofNat (n &&& 0xff) :: rest)) =
      2 ^ (8 * rest.length) * n + bigEndian 256 (octets rest) := by
  have hlow : (UInt8.ofNat (n &&& 0xff)).toNat = n % 256 := by
    rw [mask_byte, UInt8.toNat_ofNat', Nat.mod_mod]
  have hdigits : 65536 * (n / 2 ^ 16 % 256) + 256 * (n / 2 ^ 8 % 256) + n % 256 = n := by omega
  calc
    bigEndian 256 (octets (UInt8.ofNat (n >>> 16) :: UInt8.ofNat ((n >>> 8) &&& 0xff) ::
        UInt8.ofNat (n &&& 0xff) :: rest)) =
        2 ^ (8 * rest.length) *
            (65536 * (n / 2 ^ 16 % 256) + 256 * (n / 2 ^ 8 % 256) + n % 256) +
          bigEndian 256 (octets rest) := by
      rw [octets_three, shift_byte, shift_mask_byte, hlow]
    _ = 2 ^ (8 * rest.length) * n + bigEndian 256 (octets rest) := by rw [hdigits]

/-- **The loop**, in the middle of a group. -/
theorem decodeLoop_number (houtsize : 4 ≤ outsize) {group : List ℕ} (hlength : group.length < 4)
    (hdigits : ∀ v ∈ group, v < 64) :
    let call := decodeLoop outsize src (64 * bigEndian 64 group) group.length
    let values := group ++ sextets src
    call.1.length = 6 * values.length / 8 ∧
      bigEndian 256 (octets call.1) = bigEndian 64 values / 2 ^ (6 * values.length % 8) ∧
      call.2 = if values.length % 4 = 1 then 1 else 0 := by
  induction src generalizing group with
  | nil =>
      rw [decodeLoop, sextets, List.append_nil]
      exact decodeTail_number houtsize hlength hdigits
  | cons c src ih =>
      rw [decodeLoop, if_neg (by omega), sextets]
      cases hvalue : base64Value c with
      | none =>
          rw [List.append_nil]
          exact decodeTail_number houtsize hlength hdigits
      | some v =>
          have hv := base64Value_lt hvalue
          have hnumber : 64 * bigEndian 64 group + v = bigEndian 64 (group ++ [v]) := by
            rw [bigEndian_append, bigEndian_singleton, List.length_singleton, pow_one]
          have hdigits' : ∀ w ∈ group ++ [v], w < 64 := by
            intro w hw
            rcases List.mem_append.mp hw with hold | hnew
            · exact hdigits w hold
            · exact List.mem_singleton.mp hnew ▸ hv
          dsimp only
          rw [hnumber]
          by_cases hlast : group.length + 1 = 4
          · have hgroup : (group ++ [v]).length = 4 := calc
              (group ++ [v]).length = group.length + 1 := List.length_append
              _ = 4 := hlast
            have hlt := bigEndian_lt (by decide) hdigits'
            rw [hgroup] at hlt
            obtain ⟨hstored, hrest, herrors⟩ := @ih [] (by decide) (by simp)
            rw [bigEndian_nil, Nat.mul_zero, List.length_nil, List.nil_append] at hstored hrest herrors
            rw [if_pos hlast]
            have hall : (group ++ v :: sextets src).length = 4 + (sextets src).length := calc
              (group ++ v :: sextets src).length = (group ++ [v] ++ sextets src).length := by
                rw [List.append_cons]
              _ = (group ++ [v]).length + (sextets src).length := List.length_append
              _ = 4 + (sextets src).length := by rw [hgroup]
            have hbits : 6 * (4 + (sextets src).length) % 8 = 6 * (sextets src).length % 8 := by omega
            have hjoined : bigEndian 64 (group ++ v :: sextets src) =
                64 ^ (sextets src).length * bigEndian 64 (group ++ [v]) +
                  bigEndian 64 (sextets src) := by
              rw [List.append_cons, bigEndian_append (sextets src)]
            rw [hall, hbits, hjoined]
            refine ⟨?_, ?_, ?_⟩
            · simp only [List.length_cons]
              omega
            · -- The digits behind this group fill the bytes behind it, and a rest.
              have hpow : 64 ^ (sextets src).length = 2 ^ (8 * (decodeLoop outsize src 0 0).1.length +
                  6 * (sextets src).length % 8) := calc
                64 ^ (sextets src).length = (2 ^ 6) ^ (sextets src).length := by norm_num
                _ = 2 ^ (6 * (sextets src).length) := (pow_mul 2 6 _).symm
                _ = _ := by rw [hstored, Nat.div_add_mod]
              rw [octets_group (by omega), hrest, hpow, shifted_div]
            · rw [herrors, Nat.add_mod_left]
          · rw [if_neg hlast]
            have hgroup : (group ++ [v]).length = group.length + 1 := List.length_append
            have hrest := ih (by omega) hdigits'
            rw [hgroup, List.append_assoc, List.singleton_append] at hrest
            rw [Nat.shiftLeft_eq, Nat.mul_comm]
            exact hrest

/-- **What a text means.** With four bytes or more of room, whatever the text is, the bytes that
are stored are those of the number that its characters stand for. What is returned is how many they
are, as an `int`, or -1 where one character is left over. -/
theorem base64_decodes (outsize : ℕ) (src : List UInt8) (houtsize : 4 ≤ outsize) :
    Decodes outsize src := by
  obtain ⟨hlength, hnumber, herrors⟩ := @decodeLoop_number outsize src houtsize [] (by decide) (by simp)
  rw [bigEndian_nil, Nat.mul_zero, List.length_nil, List.nil_append] at hlength hnumber herrors
  have hresult : (butilBase64Decode outsize src).result =
      if (sextets src).length % 4 = 1 then -1
      else toInt32 (butilBase64Decode outsize src).out.length := by
    show (if (decodeLoop outsize src 0 0).2 ≠ 0 then (-1 : ℤ)
      else toInt32 (decodeLoop outsize src 0 0).1.length) = _
    by_cases hone : (sextets src).length % 4 = 1
    · rw [herrors, if_pos hone, if_pos hone, if_pos Nat.one_ne_zero]
    · rw [herrors, if_neg hone, if_neg hone, if_neg (not_not.mpr rfl)]
      rfl
  refine ⟨hlength, hnumber, hresult, fun hsmall => ?_⟩
  rw [hresult, (toInt32_natCast _).mpr hsmall]

/-- `-_8` and then a character that is of neither alphabet. -/
theorem base64_decodes_url : Decodes 4 (ascii ['-', '_', '8', '=', 'A']) :=
  base64_decodes 4 (ascii ['-', '_', '8', '=', 'A']) (by decide)

end Decoding

/-! ## Encoding -/

section Encoding

variable {urlencode : Bool} {outsize room j : ℕ} {src : List UInt8}

/-- The character of a digit. -/
def letter (urlencode : Bool) (v : ℕ) : UInt8 := (alphabet64 urlencode).getD v 0

/-- The four digits of a group. -/
theorem bigEndian_group (d : ℕ) :
    bigEndian 64 [d / 262144, d / 4096 % 64, d / 64 % 64, d % 64] = d := by
  simp only [bigEndian_cons, bigEndian_nil, List.length_cons, List.length_nil]
  omega

/-- The digits and the characters of a group, and what stands for the rest of it. -/
structure GroupText (urlencode : Bool) (src : List UInt8) (text : List UInt8) (values : List ℕ) :
    Prop where
  length : values.length = (8 * src.length + 5) / 6
  digits : ∀ v ∈ values, v < 64
  number : bigEndian 64 values =
    bigEndian 256 (octets src) * 2 ^ (6 * values.length - 8 * src.length)
  text : text = values.map (letter urlencode) ++
    padding urlencode (4 * ((src.length + 2) / 3) - values.length)

/-- The text of one byte. -/
theorem groupText_one (b1 : UInt8) :
    ∃ values, GroupText urlencode [b1] (encodeGroup urlencode false b1 none none).1 values := by
  have h1 := b1.toNat_lt
  obtain ⟨d, hd⟩ : ∃ d, d = 65536 * b1.toNat := ⟨_, rfl⟩
  refine ⟨[d / 262144, d / 4096 % 64], by simp, ?_, ?_, ?_⟩
  · simp only [List.mem_cons, List.not_mem_nil, or_false, forall_eq_or_imp, forall_eq]
    omega
  · simp only [octets, List.map_cons, List.map_nil, bigEndian_cons, bigEndian_nil,
      List.length_cons, List.length_nil]
    omega
  · rw [encodeGroup_one b1 hd]
    simp [letter]

/-- The text of two bytes. -/
theorem groupText_two (b1 b2 : UInt8) :
    ∃ values, GroupText urlencode [b1, b2] (encodeGroup urlencode false b1 (some b2) none).1
      values := by
  have h1 := b1.toNat_lt
  have h2 := b2.toNat_lt
  obtain ⟨d, hd⟩ : ∃ d, d = 65536 * b1.toNat + 256 * b2.toNat := ⟨_, rfl⟩
  refine ⟨[d / 262144, d / 4096 % 64, d / 64 % 64], by simp, ?_, ?_, ?_⟩
  · simp only [List.mem_cons, List.not_mem_nil, or_false, forall_eq_or_imp, forall_eq]
    omega
  · simp only [octets, List.map_cons, List.map_nil, bigEndian_cons, bigEndian_nil,
      List.length_cons, List.length_nil]
    omega
  · rw [encodeGroup_two b1 b2 hd]
    simp [letter]

/-- A full group in front of the rest. -/
theorem groupText_three (b1 b2 b3 : UInt8) {rest : List UInt8} {values : List ℕ}
    (h : GroupText urlencode src rest values) :
    ∃ values, GroupText urlencode (b1 :: b2 :: b3 :: src)
      ((encodeGroup urlencode false b1 (some b2) (some b3)).1 ++ rest) values := by
  have h1 := b1.toNat_lt
  have h2 := b2.toNat_lt
  have h3 := b3.toNat_lt
  obtain ⟨d, hd⟩ : ∃ d, d = 65536 * b1.toNat + 256 * b2.toNat + b3.toNat := ⟨_, rfl⟩
  have hlength := h.length
  refine ⟨[d / 262144, d / 4096 % 64, d / 64 % 64, d % 64] ++ values, ?_, ?_, ?_, ?_⟩
  · simp only [List.length_append, List.length_cons, List.length_nil]
    omega
  · intro v hv
    rcases List.mem_append.mp hv with hgroup | hrest
    · simp only [List.mem_cons, List.not_mem_nil, or_false] at hgroup
      omega
    · exact h.digits v hrest
  · have hexponent : 6 * ([d / 262144, d / 4096 % 64, d / 64 % 64, d % 64] ++ values).length -
        8 * (b1 :: b2 :: b3 :: src).length = 6 * values.length - 8 * src.length := by
      simp only [List.length_append, List.length_cons, List.length_nil]
      omega
    have hpow : 64 ^ values.length = 2 ^ (8 * src.length) * 2 ^ (6 * values.length - 8 * src.length) :=
      calc
        64 ^ values.length = (2 ^ 6) ^ values.length := by norm_num
        _ = 2 ^ (6 * values.length) := (pow_mul 2 6 values.length).symm
        _ = 2 ^ (8 * src.length + (6 * values.length - 8 * src.length)) := by
          rw [Nat.add_sub_cancel' (by omega)]
        _ = 2 ^ (8 * src.length) * 2 ^ (6 * values.length - 8 * src.length) := pow_add _ _ _
    rw [hexponent]
    calc
      bigEndian 64 ([d / 262144, d / 4096 % 64, d / 64 % 64, d % 64] ++ values) =
          64 ^ values.length * d + bigEndian 64 values := by rw [bigEndian_append, bigEndian_group]
      _ = 2 ^ (8 * src.length) * 2 ^ (6 * values.length - 8 * src.length) * d +
          bigEndian 256 (octets src) * 2 ^ (6 * values.length - 8 * src.length) := by
        rw [hpow, h.number]
      _ = (2 ^ (8 * src.length) * d + bigEndian 256 (octets src)) *
          2 ^ (6 * values.length - 8 * src.length) := by ring
      _ = bigEndian 256 (octets (b1 :: b2 :: b3 :: src)) *
          2 ^ (6 * values.length - 8 * src.length) := by rw [octets_three, hd]
  · have hpadding : 4 * (((b1 :: b2 :: b3 :: src).length + 2) / 3) -
        ([d / 262144, d / 4096 % 64, d / 64 % 64, d % 64] ++ values).length =
        4 * ((src.length + 2) / 3) - values.length := by
      simp only [List.length_append, List.length_cons, List.length_nil]
      omega
    rw [encodeGroup_three b1 b2 b3 hd, h.text, hpadding, List.map_append, List.append_assoc]
    rfl

/-- **The loop**, with room for all groups. -/
theorem encodeLoop_number (urlencode : Bool)
    (hwhole : (encodeLoop urlencode false room j src).2 = true) :
    ∃ values, GroupText urlencode src (encodeLoop urlencode false room j src).1 values := by
  fun_induction encodeLoop urlencode false room j src with
  | case1 j =>
      refine ⟨[], rfl, by simp, by simp [octets], ?_⟩
      cases urlencode with
      | false => rfl
      | true => rfl
  | case2 j b1 hlt => exact groupText_one b1
  | case3 j b1 hge => cases hwhole
  | case4 j b1 b2 hlt => exact groupText_two b1 b2
  | case5 j b1 b2 hge => cases hwhole
  | case6 j b1 b2 b3 src hlt text i hgroup rest whole hloop ih =>
      obtain ⟨values, hvalues⟩ := ih (by rw [hloop]; exact hwhole)
      have htext : (encodeGroup urlencode false b1 (some b2) (some b3)).1 = text := by rw [hgroup]
      rw [hloop] at hvalues
      rw [← htext]
      exact groupText_three b1 b2 b3 hvalues
  | case7 j b1 b2 b3 src hge => cases hwhole

/-- Without room for four characters for every group and a NUL, the loop stops at a group. -/
theorem encodeLoop_stops (urlencode : Bool) (hj : j < room + 4)
    (hshort : room + 4 ≤ j + 4 * ((src.length + 2) / 3)) :
    (encodeLoop urlencode false room j src).2 = false := by
  fun_induction encodeLoop urlencode false room j src with
  | case1 j =>
      simp only [List.length_nil] at hshort
      omega
  | case2 j b1 hlt =>
      simp only [List.length_cons, List.length_nil] at hshort
      omega
  | case3 j b1 hge => rfl
  | case4 j b1 b2 hlt =>
      simp only [List.length_cons, List.length_nil] at hshort
      omega
  | case5 j b1 b2 hge => rfl
  | case6 j b1 b2 b3 src hlt text i hgroup rest whole hloop ih =>
      -- Every group counts as four characters.
      have hi : i = 4 := (congrArg Prod.snd hgroup).symm
      subst hi
      simp only [List.length_cons] at hshort
      have hstops := ih (by omega) (by omega)
      rw [hloop] at hstops
      exact hstops
  | case7 j b1 b2 b3 src hge => rfl

/-- **What a source becomes.** With room for four characters for every three bytes and for the NUL,
it is the number of the source, filled up with zero bits to whole characters. With less room the
call is refused, also where the other alphabet, which is not padded, would need no more. -/
theorem base64_encodes (urlencode : Bool) (outsize : ℕ) (src : List UInt8)
    (hfour : 4 ≤ outsize) :
    (4 * ((src.length + 2) / 3) < outsize → ∃ values, Encodes urlencode outsize src values) ∧
      (outsize ≤ 4 * ((src.length + 2) / 3) →
        (butilBase64Encode outsize src urlencode false).result = -1) := by
  constructor
  case right =>
    intro hshort
    have hstops := @encodeLoop_stops (outsize - 4) 0 src urlencode (by omega) (by omega)
    unfold butilBase64Encode
    simp only [if_pos hfour, hstops, Bool.false_eq_true, if_false]
  intro hroom
  obtain ⟨hlength, hresult, -⟩ := @encode_decode outsize urlencode 4 src ⟨hfour, hroom⟩ le_rfl
  have hfits : 0 + 4 * ((src.length + 2) / 3) ≤ outsize - 4 + 3 := by omega
  obtain ⟨values, hvalues⟩ := encodeLoop_number urlencode (encodeLoop_spec urlencode hfits).1
  have hout : (butilBase64Encode outsize src urlencode false).out =
      (encodeLoop urlencode false (outsize - 4) 0 src).1 := by
    unfold butilBase64Encode
    rw [if_pos hfour]
  refine ⟨values, hvalues.length, hvalues.digits, hvalues.number, ?_, ?_⟩
  · rw [hout, hvalues.text]
    rfl
  · rw [hresult, hlength]

/-- Two bytes in five, and one byte in four, where its two characters and a NUL would fit. -/
theorem base64_encodes_two : (∃ values, Encodes true 5 [0xff, 0x3e] values) ∧
    (butilBase64Encode 4 [0] true false).result = -1 :=
  ⟨(base64_encodes true 5 [0xff, 0x3e] (by decide)).1 (by decide),
    (base64_encodes true 4 [0] (by decide)).2 (by decide)⟩

end Encoding

end SmbProxy.Analysis
