import SmbProxy.Analysis.Base64Bounds

/-!
# Base64 with hex escapes

An escape stands for one character (`unescape_hexencode`), so that group by group the escaped
text is the other one. But the branch without escapes leaves the padding out for the URL
alphabet, and the branch with escapes does not ask which alphabet it is; so the two differ in
the tail of a text for URLs (`unescape_encoding_iff`).
-/

set_option autoImplicit false

namespace SmbProxy.Analysis

open SmbProxy.Library SmbProxy.Model SmbProxy.Interface

section Escape

variable {urlencode : Bool} {outsize outsize' room j : ℕ} {src text : List UInt8}

/-! ## One character -/

/-- A character that is not `%` is left as it is. -/
theorem unescape_cons {c : UInt8} (hc : c ≠ 37) (text : List UInt8) :
    unescape (c :: text) = c :: unescape text := by
  have hne : ∀ (d e : UInt8) (escape : List Char), [c, d, e] ≠ ascii ('%' :: escape) := by
    intro d e escape heq
    exact hc (List.cons.inj heq).1
  match text with
  | [] => rfl
  | [d] => rfl
  | d :: e :: text =>
      rw [unescape, if_neg (hne d e ['2', 'B']), if_neg (hne d e ['2', 'F']),
        if_neg (hne d e ['3', 'D'])]

/-- What a character has been escaped to is unescaped to it. -/
theorem unescape_hexencode {c : UInt8} (hc : c ≠ 37) (text : List UInt8) :
    unescape (base64HexencodeByte c ++ text) = c :: unescape text := by
  unfold base64HexencodeByte
  split_ifs with hplus hslash hequals
  · rw [hplus]
    rfl
  · rw [hslash]
    rfl
  · rw [hequals]
    rfl
  · exact unescape_cons hc text

/-- An escape at the end is undone. -/
theorem unescape_hexencode_nil {c : UInt8} (hc : c ≠ 37) : unescape (base64HexencodeByte c) = [c] := by
  have hnil := unescape_hexencode hc []
  rwa [List.append_nil] at hnil

/-- No character of an alphabet is `%`. -/
theorem alphabet64_ne (urlencode : Bool) (i : ℕ) : (alphabet64 urlencode).getD i 0 ≠ 37 := by
  have hall : (alphabet64 urlencode).all (fun c => c ≠ 37) = true := by
    cases urlencode with
    | false => rfl
    | true => rfl
  rw [List.getD_eq_getElem?_getD]
  cases hi : (alphabet64 urlencode)[i]? with
  | none => simp
  | some c => exact of_decide_eq_true (List.all_eq_true.mp hall c (List.mem_of_getElem? hi))

/-! ## Groups -/

/-- The escapes of a full group are undone. -/
theorem unescape_group_three (b1 b2 b3 : UInt8) (text : List UInt8) :
    unescape ((encodeGroup urlencode true b1 (some b2) (some b3)).1 ++ text) =
      (encodeGroup urlencode false b1 (some b2) (some b3)).1 ++ unescape text := by
  have hplain := alphabet64_ne urlencode
  simp only [encodeGroup, if_true, Option.isSome_some, List.append_assoc]
  rw [unescape_hexencode (hplain _), unescape_hexencode (hplain _), unescape_hexencode (hplain _),
    unescape_hexencode (hplain _)]
  rfl

/-- The escaped tail has its padding in either alphabet. -/
theorem unescape_group_two (b1 b2 : UInt8) :
    unescape (encodeGroup urlencode true b1 (some b2) none).1 =
        (encodeGroup urlencode false b1 (some b2) none).1 ↔ urlencode = false := by
  have hplain := alphabet64_ne urlencode
  have hequals : (61 : UInt8) ≠ 37 := by simp
  simp only [encodeGroup, if_true, Option.isSome_some, Option.isSome_none, List.append_assoc]
  rw [unescape_hexencode (hplain _), unescape_hexencode (hplain _), unescape_hexencode (hplain _)]
  simp only [Bool.false_eq_true, if_false, unescape_hexencode_nil hequals]
  cases urlencode <;> simp

/-- Those of one byte are, if the alphabet has padding. -/
theorem unescape_group_one (b1 : UInt8) :
    unescape (encodeGroup urlencode true b1 none none).1 =
        (encodeGroup urlencode false b1 none none).1 ↔ urlencode = false := by
  have hplain := alphabet64_ne urlencode
  have hequals : (61 : UInt8) ≠ 37 := by simp
  simp only [encodeGroup, if_true, Option.isSome_none, List.append_assoc]
  rw [unescape_hexencode (hplain _), unescape_hexencode (hplain _)]
  simp only [Bool.false_eq_true, if_false, unescape_hexencode hequals,
    unescape_hexencode_nil hequals]
  cases urlencode <;> simp

/-! ## Texts -/

/-- The encoding of a full group and of what is behind it. -/
theorem encoding_cons (urlencode hexescape : Bool) (b1 b2 b3 : UInt8) (src : List UInt8) :
    encoding urlencode hexescape (b1 :: b2 :: b3 :: src) =
      (encodeGroup urlencode hexescape b1 (some b2) (some b3)).1 ++ encoding urlencode hexescape src := by
  simp only [encoding, groups, List.flatten_cons]

/-- **Unescaping the complete encoding** gives the plain one but for the tail of a URL. -/
theorem unescape_encoding_iff (urlencode : Bool) (src : List UInt8) :
    unescape (encoding urlencode true src) = encoding urlencode false src ↔
      urlencode = false ∨ 3 ∣ src.length := by
  fun_induction groups urlencode true src with
  | case1 => exact iff_of_true rfl (Or.inr (Nat.dvd_zero 3))
  | case2 b1 =>
      have htail : ¬ 3 ∣ [b1].length := by simp
      rw [or_iff_left htail, ← unescape_group_one b1]
      simp only [encoding, groups, List.flatten_cons, List.flatten_nil, List.append_nil]
  | case3 b1 b2 =>
      have htail : ¬ 3 ∣ [b1, b2].length := by simp
      rw [or_iff_left htail, ← unescape_group_two b1 b2]
      simp only [encoding, groups, List.flatten_cons, List.flatten_nil, List.append_nil]
  | case4 b1 b2 b3 src ih =>
      have hlength : 3 ∣ (b1 :: b2 :: b3 :: src).length ↔ 3 ∣ src.length := by
        simp only [List.length_cons]
        omega
      rw [encoding_cons, encoding_cons, unescape_group_three, List.append_cancel_left_eq, ih, hlength]

/-- Every group with escapes has four characters and more. -/
theorem four_le_encoding (urlencode : Bool) (src : List UInt8) :
    4 * ((src.length + 2) / 3) ≤ (encoding urlencode true src).length := by
  fun_induction groups urlencode true src with
  | case1 => exact Nat.zero_le _
  | case2 b1 => simpa [encoding, groups] using encodeGroup_escaped_length b1 none none
  | case3 b1 b2 => simpa [encoding, groups] using encodeGroup_escaped_length b1 (some b2) none
  | case4 b1 b2 b3 src ih =>
      have hfour := @encodeGroup_escaped_length urlencode b1 (some b2) (some b3)
      rw [encoding_cons, List.length_append]
      simp only [List.length_cons]
      omega

/-- With room for the escaped text, the loop reaches the end of the source. -/
theorem encodeLoop_escaped (hroom : j + (encoding urlencode true src).length ≤ room + 3) :
    (encodeLoop urlencode true room j src).2 = true := by
  fun_induction encodeLoop urlencode true room j src with
  | case1 j => rfl
  | case2 j b1 hlt => rfl
  | case3 j b1 hge =>
      have hfour := four_le_encoding urlencode [b1]
      simp only [List.length_cons, List.length_nil] at hfour
      omega
  | case4 j b1 b2 hlt => rfl
  | case5 j b1 b2 hge =>
      have hfour := four_le_encoding urlencode [b1, b2]
      simp only [List.length_cons, List.length_nil] at hfour
      omega
  | case6 j b1 b2 b3 src hlt text i hgroup rest whole hloop ih =>
      obtain ⟨hcount, -⟩ := @encodeGroup_full urlencode true b1 b2 b3
      rw [hgroup] at hcount
      rw [encoding_cons, hgroup, List.length_append] at hroom
      dsimp only at hcount hroom
      rw [hloop] at ih
      exact ih (by omega)
  | case7 j b1 b2 b3 src hge =>
      have hfour := four_le_encoding urlencode (b1 :: b2 :: b3 :: src)
      simp only [List.length_cons] at hfour
      omega

/-- A buffer for the escaped text has room for either form. -/
theorem encodeLoop_fits (hexescape : Bool) (hne : src ≠ [])
    (hfits : (encoding urlencode true src).length < outsize) :
    4 ≤ outsize ∧ (encodeLoop urlencode hexescape (outsize - 4) 0 src).2 = true := by
  have hfour := four_le_encoding urlencode src
  have hpos := List.length_pos_iff.mpr hne
  refine ⟨by omega, ?_⟩
  cases hexescape with
  | false => exact (encodeLoop_spec urlencode (by omega)).1
  | true => exact encodeLoop_escaped (by omega)

/-- With room for the escaped text, the text is complete with escapes or without. -/
theorem encode_out (hexescape : Bool) (hfits : (encoding urlencode true src).length < outsize) :
    (butilBase64Encode outsize src urlencode hexescape).out = encoding urlencode hexescape src := by
  by_cases hempty : src = []
  · rw [hempty]
    rfl
  · obtain ⟨hfour, hwhole⟩ := encodeLoop_fits hexescape hempty hfits
    have hroom : (if 4 ≤ outsize then outsize - 4 else 2 ^ 64 + outsize - 4) = outsize - 4 :=
      if_pos hfour
    unfold butilBase64Encode
    rw [hroom]
    exact encodeLoop_of_whole hwhole

/-- What has been encoded without escapes is decoded. -/
theorem decode_encoding (houtsize' : 4 ≤ outsize') (urlencode : Bool) (src : List UInt8) :
    (butilBase64Decode outsize' (encoding urlencode false src)).out = src := by
  have hfits : 0 + 4 * ((src.length + 2) / 3) ≤ 4 * ((src.length + 2) / 3) + 3 := by omega
  have hwhole := (encodeLoop_spec urlencode hfits).1
  have hdecode := decodeLoop_encodeLoop houtsize' hwhole
  rw [encodeLoop_of_whole hwhole] at hdecode
  unfold butilBase64Decode
  rw [hdecode]

/-- **Escaping changes only the escapes** iff the alphabet is not that for URLs, or the source
has no tail. -/
theorem escapes_only_iff (urlencode : Bool) (src : List UInt8)
    (houtsize : (encoding urlencode true src).length < outsize ∧
      (encoding urlencode false src).length < outsize)
    (houtsize' : max 4 (src.length + 1) ≤ outsize') :
    EscapesOnly urlencode outsize outsize' src ↔ urlencode = false ∨ 3 ∣ src.length := by
  have hescaped := encode_out true houtsize.1
  have hplain := encode_out false houtsize.1
  rw [← unescape_encoding_iff]
  constructor
  · intro h
    have htext := h.text
    rwa [hescaped, hplain] at htext
  · intro h
    refine ⟨?_, ?_⟩
    · rw [hescaped, hplain, h]
    · rw [hescaped, h]
      exact decode_encoding (le_trans (Nat.le_max_left _ _) houtsize') urlencode src

/-- `++8=`, in which every character but one is escaped. -/
theorem escapes_only_iff_two : EscapesOnly false 16 4 [0xFB, 0xEF] :=
  (escapes_only_iff false [0xFB, 0xEF] (by decide) (by simp)).mpr (Or.inl rfl)

/-- One byte for a URL has its padding escaped, and no padding without escapes. -/
theorem not_escapes_only_tail :
    ¬ ∀ (urlencode : Bool) (outsize outsize' : ℕ) (src : List UInt8),
      (encoding urlencode true src).length < outsize →
        (encoding urlencode false src).length < outsize → max 4 (src.length + 1) ≤ outsize' →
          EscapesOnly urlencode outsize outsize' src := by
  intro h
  have htext := (h true 64 64 [0] (by decide) (by decide) (by simp)).text
  exact absurd htext (by decide)

end Escape

end SmbProxy.Analysis
