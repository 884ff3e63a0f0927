import SmbProxy.Interface.Utf8

/-!
# The UTF-8 round trip

A code point is a lead part and groups of six bits. The marks that the encoder puts before
them are those that the decoder tests and takes away (`lead_two` and so on, `continuation`),
and the groups are shifted back to where they came from (`join_group`, `continueUtf8_groups`).
-/

set_option autoImplicit false

namespace SmbProxy.Analysis

open SmbProxy.Model SmbProxy.Interface

/-! ## Marks -/

section Marks

/-- Bits put together with a shift and an or are put together with a product and a sum. -/
theorem shift_or {a r k : ℕ} (h : r < 2 ^ k) : a <<< k ||| r = 2 ^ k * a + r := by
  calc
    a <<< k ||| r = a <<< k + r := (Nat.shiftLeft_add_eq_or_of_lt h a).symm
    _ = 2 ^ k * a + r := by rw [Nat.shiftLeft_eq, Nat.mul_comm]

/-- The lead byte of one. -/
theorem lead_one : ∀ r, r < 128 → r &&& 0x80 = 0 := by decide

/-- The lead byte of two: the mark, what the decoder tests, and what it takes out. -/
theorem lead_two : ∀ r, r < 32 →
    (0xC0 ||| r) < 256 ∧ (0xC0 ||| r) &&& 0x80 ≠ 0 ∧ (0xC0 ||| r) &&& 0x20 = 0 ∧
      (0xC0 ||| r) &&& 0x1f = r := by
  decide

/-- The bits of a lead byte of three. -/
theorem lead_three : ∀ r, r < 16 →
    (0xE0 ||| r) < 256 ∧ (0xE0 ||| r) &&& 0x80 ≠ 0 ∧ (0xE0 ||| r) &&& 0x20 ≠ 0 ∧
      (0xE0 ||| r) &&& 0x10 = 0 ∧ (0xE0 ||| r) &&& 0xf = r := by
  decide

/-- The bits of a lead byte of four. -/
theorem lead_four : ∀ r, r < 8 →
    (0xF0 ||| r) < 256 ∧ (0xF0 ||| r) &&& 0x80 ≠ 0 ∧ (0xF0 ||| r) &&& 0x20 ≠ 0 ∧
      (0xF0 ||| r) &&& 0x10 ≠ 0 ∧ (0xF0 ||| r) &&& 0x7 = r := by
  decide

/-- A continuation byte holds the six bits it was made of. -/
theorem continuation (n : ℕ) : (UInt8.ofNat (0x80 ||| n &&& 0x3F)).toNat &&& 0x3f = n % 64 := by
  have hmark : ∀ r, r < 64 → (UInt8.ofNat (0x80 ||| r)).toNat &&& 0x3f = r := by decide
  have hmask : n &&& 0x3F = n % 64 := Nat.and_two_pow_sub_one_eq_mod n 6
  rw [hmask]
  exact hmark (n % 64) (by omega)

end Marks

/-! ## Bytes at the front of a buffer -/

section Front

variable {utfbuf : ℕ → UInt8}

/-- A buffer that begins with two strings begins with the first, and goes on with the second. -/
theorem begins_append {bytes rest : List UInt8} (h : Begins utfbuf (bytes ++ rest)) :
    Begins utfbuf bytes ∧ Begins (fun i => utfbuf (bytes.length + i)) rest := by
  constructor
  · intro i hi
    rw [h i (by simp only [List.length_append]; omega)]
    simp [List.getElem_append_left hi]
  · intro i hi
    show utfbuf (bytes.length + i) = rest.get ⟨i, hi⟩
    rw [h (bytes.length + i) (by simp only [List.length_append]; omega)]
    simp

/-- A buffer that begins with a byte has it first. -/
theorem begins_cons {b : UInt8} {bytes : List UInt8} (h : Begins utfbuf (b :: bytes)) :
    utfbuf 0 = b ∧ Begins (fun i => utfbuf (1 + i)) bytes := by
  have happend : Begins utfbuf ([b] ++ bytes) := h
  obtain ⟨hfirst, hrest⟩ := begins_append happend
  exact ⟨hfirst 0 Nat.zero_lt_one, hrest⟩

/-- The first byte is the one that has been encoded first. -/
theorem lead_byte {n : ℕ} {bytes : List UInt8} (h : Begins utfbuf (UInt8.ofNat n :: bytes))
    (hn : n < 256) : (utfbuf 0).toNat = n := by
  rw [(begins_cons h).1]
  exact UInt8.toNat_ofNat_of_lt hn

end Front

/-! ## Continuation bytes -/

section Groups

variable {utfbuf : ℕ → UInt8} {nutf c : ℕ}

/-- The shifts of so many groups of six bits, the highest group first. -/
def groupShifts : ℕ → List ℕ
  | 0 => []
  | m + 1 => 6 * m :: groupShifts m

/-- The continuation byte for the group at a shift. -/
def continuationByte (c shift : ℕ) : UInt8 := UInt8.ofNat (0x80 ||| (c >>> shift) &&& 0x3F)

/-- What is above a group, and the group. -/
theorem join_group (c m : ℕ) :
    (c >>> (6 * (m + 1))) <<< (6 * (m + 1)) ||| (c >>> (6 * m) % 64) <<< (6 * m) =
      (c >>> (6 * m)) <<< (6 * m) := by
  have hgroup : (c >>> (6 * m)) >>> 6 <<< 6 ||| c >>> (6 * m) % 64 = c >>> (6 * m) := by
    have hlt : c >>> (6 * m) % 64 < 2 ^ 6 := Nat.mod_lt _ (Nat.two_pow_pos 6)
    calc
      (c >>> (6 * m)) >>> 6 <<< 6 ||| c >>> (6 * m) % 64 =
          2 ^ 6 * (c >>> (6 * m)) >>> 6 + c >>> (6 * m) % 64 := shift_or hlt
      _ = c >>> (6 * m) := by
        rw [Nat.shiftRight_eq_div_pow _ 6]
        exact Nat.div_add_mod _ 64
  calc
    (c >>> (6 * (m + 1))) <<< (6 * (m + 1)) ||| (c >>> (6 * m) % 64) <<< (6 * m) =
        ((c >>> (6 * m)) >>> 6 <<< 6) <<< (6 * m) ||| (c >>> (6 * m) % 64) <<< (6 * m) := by
      rw [← Nat.shiftRight_add, ← Nat.shiftLeft_add, Nat.mul_add_one, Nat.add_comm 6]
    _ = ((c >>> (6 * m)) >>> 6 <<< 6 ||| c >>> (6 * m) % 64) <<< (6 * m) :=
      (Nat.shiftLeft_or_distrib ..).symm
    _ = (c >>> (6 * m)) <<< (6 * m) := by rw [hgroup]

/-- One more continuation byte. -/
theorem continueUtf8_cons {dangling shift b i : ℕ} {shifts : List ℕ} (h : 0 < nutf) :
    continueUtf8 utfbuf dangling (shift :: shifts) b i nutf =
      continueUtf8 utfbuf dangling shifts (b ||| ((utfbuf i).toNat &&& 0x3f) <<< shift) (i + 1)
        (nutf - 1) := by
  have hsome : ¬ nutf < 1 := by omega
  have hdecrement : decrement nutf = nutf - 1 := if_neg (by omega)
  rw [continueUtf8, if_neg hsome, hdecrement]

/-- **The continuation bytes complete the code point** that is known above their groups. -/
theorem continueUtf8_groups {dangling i m : ℕ} (hnutf : m ≤ nutf)
    (hbuf : Begins (fun j => utfbuf (i + j)) ((groupShifts m).map (continuationByte c))) :
    continueUtf8 utfbuf dangling (groupShifts m) ((c >>> (6 * m)) <<< (6 * m)) i nutf =
      { result := i + m, unicode := some c, read := i + m } := by
  induction m generalizing i nutf with
  | zero => rfl
  | succ m ih =>
      obtain ⟨hfirst, hrest⟩ := begins_cons hbuf
      have hgroup : (utfbuf i).toNat &&& 0x3f = c >>> (6 * m) % 64 := by
        have hbyte : utfbuf i = continuationByte c (6 * m) := hfirst
        rw [hbyte]
        exact continuation (c >>> (6 * m))
      have hrest' : Begins (fun j => utfbuf (i + 1 + j))
          ((groupShifts m).map (continuationByte c)) := by
        intro j hj
        show utfbuf (i + 1 + j) = _
        rw [Nat.add_assoc]
        exact hrest j hj
      show continueUtf8 utfbuf dangling (6 * m :: groupShifts m) _ i nutf = _
      rw [continueUtf8_cons (by omega), hgroup, join_group, ih (by omega) hrest',
        Nat.add_assoc i 1 m, Nat.add_comm 1 m]

end Groups

/-! ## One call -/

section Call

variable {utfbuf : ℕ → UInt8} {nutf c : ℕ}

/-- One byte less is left, and there was one more. -/
theorem le_decrement {m : ℕ} (h : m + 1 ≤ nutf) : m ≤ decrement nutf := by
  unfold decrement
  rw [if_neg (by omega)]
  omega

/-- A character of one byte is decoded. -/
theorem decode_one (hc : c < 0x80) (hbuf : Begins utfbuf (butilUtf8Encode c)) :
    butilUtf8Decode utfbuf nutf = wholeCall c := by
  have hencode : butilUtf8Encode c = [UInt8.ofNat (c &&& 0xFF)] := if_pos hc
  have hmask : c &&& 0xFF = c := by
    rw [Nat.and_two_pow_sub_one_eq_mod c 8]
    omega
  rw [hencode, hmask] at hbuf
  have hzero := lead_byte hbuf (by omega)
  have hlead : ¬ c &&& 0x80 ≠ 0 := not_not.mpr (lead_one c hc)
  unfold butilUtf8Decode wholeCall
  rw [hzero, hencode]
  simp only [if_neg hlead]
  rfl

/-- A character of two bytes is decoded. -/
theorem decode_two (hc : ¬ c < 0x80) (hlt : c < 0x800) (hbuf : Begins utfbuf (butilUtf8Encode c))
    (hnutf : (butilUtf8Encode c).length ≤ nutf) : butilUtf8Decode utfbuf nutf = wholeCall c := by
  have hencode : butilUtf8Encode c =
      UInt8.ofNat (0xC0 ||| c >>> 6) :: (groupShifts 1).map (continuationByte c) := by
    unfold butilUtf8Encode
    rw [if_neg hc, if_pos hlt]
    rfl
  rw [hencode] at hbuf hnutf
  have hshift : c >>> 6 < 32 := by
    rw [Nat.shiftRight_eq_div_pow]
    omega
  obtain ⟨hbyte, htwo, hthree, hlead⟩ := lead_two (c >>> 6) hshift
  have hzero := lead_byte hbuf hbyte
  unfold butilUtf8Decode wholeCall
  rw [hzero, hencode]
  simp only [if_pos htwo, hthree, ne_eq, not_true_eq_false, if_false, hlead]
  exact continueUtf8_groups (m := 1) (le_decrement hnutf) (begins_cons hbuf).2

/-- A character of three bytes is decoded. -/
theorem decode_three (hc : ¬ c < 0x800) (hlt : c < 0x10000)
    (hbuf : Begins utfbuf (butilUtf8Encode c)) (hnutf : (butilUtf8Encode c).length ≤ nutf) :
    butilUtf8Decode utfbuf nutf = wholeCall c := by
  have hencode : butilUtf8Encode c =
      UInt8.ofNat (0xE0 ||| c >>> 12) :: (groupShifts 2).map (continuationByte c) := by
    unfold butilUtf8Encode
    rw [if_neg (by omega), if_neg hc, if_pos hlt]
    rfl
  rw [hencode] at hbuf hnutf
  have hshift : c >>> 12 < 16 := by
    rw [Nat.shiftRight_eq_div_pow]
    omega
  obtain ⟨hbyte, htwo, hthree, hfour, hlead⟩ := lead_three (c >>> 12) hshift
  have hzero := lead_byte hbuf hbyte
  unfold butilUtf8Decode wholeCall
  rw [hzero, hencode]
  simp only [if_pos htwo, if_pos hthree, hfour, ne_eq, not_true_eq_false, if_false, hlead]
  exact continueUtf8_groups (m := 2) (le_decrement hnutf) (begins_cons hbuf).2

/-- A character of four bytes is decoded. -/
theorem decode_four (hc : ¬ c < 0x10000) (hlt : c < 0x200000)
    (hbuf : Begins utfbuf (butilUtf8Encode c)) (hnutf : (butilUtf8Encode c).length ≤ nutf) :
    butilUtf8Decode utfbuf nutf = wholeCall c := by
  have hencode : butilUtf8Encode c =
      UInt8.ofNat (0xF0 ||| c >>> 18) :: (groupShifts 3).map (continuationByte c) := by
    unfold butilUtf8Encode
    rw [if_neg (by omega), if_neg (by omega), if_neg hc, if_pos hlt]
    rfl
  rw [hencode] at hbuf hnutf
  have hshift : c >>> 18 < 8 := by
    rw [Nat.shiftRight_eq_div_pow]
    omega
  obtain ⟨hbyte, htwo, hthree, hfour, hlead⟩ := lead_four (c >>> 18) hshift
  have hzero := lead_byte hbuf hbyte
  unfold butilUtf8Decode wholeCall
  rw [hzero, hencode]
  simp only [if_pos htwo, if_pos hthree, if_pos hfour, hlead]
  exact continueUtf8_groups (m := 3) (le_decrement hnutf) (begins_cons hbuf).2

/-- **One code point**, whatever follows its bytes. -/
theorem decode_encode (hc : c < 0x200000) (hbuf : Begins utfbuf (butilUtf8Encode c))
    (hnutf : (butilUtf8Encode c).length ≤ nutf) : butilUtf8Decode utfbuf nutf = wholeCall c := by
  by_cases hone : c < 0x80
  · exact decode_one hone hbuf
  by_cases htwo : c < 0x800
  · exact decode_two hone htwo hbuf hnutf
  by_cases hthree : c < 0x10000
  · exact decode_three htwo hthree hbuf hnutf
  · exact decode_four hthree hc hbuf hnutf

/-- A character has at least one byte. -/
theorem length_encode_pos (hc : c < 0x200000) : 0 < (butilUtf8Encode c).length := by
  unfold butilUtf8Encode
  split_ifs
  · exact Nat.succ_pos _
  · exact Nat.succ_pos _
  · exact Nat.succ_pos _
  · exact Nat.succ_pos _

end Call

/-! ## Texts -/

section Texts

variable {utfbuf : ℕ → UInt8}

/-- A text is its first character and the others behind it. -/
theorem encodeText_cons (c : ℕ) (text : List ℕ) :
    encodeText (c :: text) = butilUtf8Encode c ++ encodeText text := rfl

/-- Every call decodes one code point from the bytes it was encoded to. -/
theorem decodeCalls_encodeText (text : List ℕ) (htext : ∀ c ∈ text, c < 0x200000)
    (hbuf : Begins utfbuf (encodeText text)) :
    decodeCalls utfbuf (encodeText text).length = text.map wholeCall := by
  induction text generalizing utfbuf with
  | nil =>
      rw [decodeCalls]
      rfl
  | cons c text ih =>
      have hc := htext c List.mem_cons_self
      have hresult : 0 < (wholeCall c).result := length_encode_pos hc
      rw [encodeText_cons] at hbuf
      obtain ⟨hfirst, hrest⟩ := begins_append hbuf
      have hlength : (encodeText (c :: text)).length =
          (wholeCall c).result + (encodeText text).length := by
        rw [encodeText_cons, List.length_append]
        rfl
      have hcall : butilUtf8Decode utfbuf (encodeText (c :: text)).length = wholeCall c := by
        apply decode_encode hc hfirst
        rw [encodeText_cons, List.length_append]
        exact Nat.le_add_right _ _
      rw [decodeCalls, if_neg (by omega), hcall, if_pos ⟨hresult, by omega⟩, hlength,
        Nat.add_sub_cancel_left, List.map_cons]
      exact congrArg (wholeCall c :: ·) (ih (fun d hd => htext d (List.mem_cons_of_mem c hd)) hrest)

/-- What is read in all are the bytes of the text. -/
theorem sum_read (text : List ℕ) :
    ((text.map wholeCall).map DecodedUtf8.read).sum = (encodeText text).length := by
  induction text with
  | nil => rfl
  | cons c text ih =>
      rw [List.map_cons, List.map_cons, List.sum_cons, ih, encodeText_cons, List.length_append]
      rfl

/-- **The text comes back.** Every call decodes one code point from the bytes it was encoded
to, and reads nothing behind the end. -/
theorem utf8_round_trip (text : List ℕ) (htext : ∀ c ∈ text, c < 0x200000)
    (hbuf : Begins utfbuf (encodeText text)) :
    decodeCalls utfbuf (encodeText text).length = text.map wholeCall ∧
      ∀ before call after,
        decodeCalls utfbuf (encodeText text).length = before ++ call :: after →
          (before.map DecodedUtf8.result).sum + call.read ≤ (encodeText text).length := by
  have hcalls := decodeCalls_encodeText text htext hbuf
  refine ⟨hcalls, fun before call after hsplit => ?_⟩
  rw [hcalls] at hsplit
  have hbefore : before.map DecodedUtf8.result = before.map DecodedUtf8.read := by
    apply List.map_congr_left
    intro call' hmem
    have hmem' : call' ∈ text.map wholeCall := by
      rw [hsplit]
      exact List.mem_append_left _ hmem
    obtain ⟨c, -, rfl⟩ := List.mem_map.mp hmem'
    rfl
  have hsum := sum_read text
  rw [hsplit, List.map_append, List.sum_append, List.map_cons, List.sum_cons] at hsum
  rw [hbefore]
  omega

/-- Characters of one, two, three and four bytes. -/
theorem utf8_round_trip_mixed :
    decodeCalls (fun i => (encodeText [0x41, 0xE9, 0x20AC, 0x1F600]).getD i 0) 10 =
        [0x41, 0xE9, 0x20AC, 0x1F600].map wholeCall ∧
      ∀ before call after,
        decodeCalls (fun i => (encodeText [0x41, 0xE9, 0x20AC, 0x1F600]).getD i 0) 10 =
          before ++ call :: after →
            (before.map DecodedUtf8.result).sum + call.read ≤ 10 :=
  utf8_round_trip [0x41, 0xE9, 0x20AC, 0x1F600] (by decide) (fun i h => by simp [h])

end Texts

end SmbProxy.Analysis
