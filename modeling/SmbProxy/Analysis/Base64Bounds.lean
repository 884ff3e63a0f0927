import SmbProxy.Analysis.Base64

/-!
# What the base64 functions store

The decoder looks at its buffer only to see whether it has four bytes at all; from there on
it stores what the text stands for (`decodeLoop_length`). The encoder looks at the place where
a group begins, and then stores the whole group. Without escapes a group has at most the four
characters that are left there; with them it has up to twelve (`encodeLoop_overruns_iff`). A
buffer of less than four bytes makes `outsize - 4` wrap, and there is no limit at all.
-/

set_option autoImplicit false

namespace SmbProxy.Analysis

open SmbProxy.Library SmbProxy.Model SmbProxy.Interface

/-! ## Decoding -/

section Decode

variable {outsize : ℕ} {src : List UInt8}

/-- Behind the last full group one byte less is stored than there are characters, or none. -/
theorem decodeTail_length (houtsize : 4 ≤ outsize) {bits outchars errors : ℕ} (h : outchars < 4) :
    (decodeTail outsize bits outchars errors).1.length = 3 * outchars / 4 := by
  unfold decodeTail
  split_ifs with h1 h2 h3 h4 h5
  · simp [h1]
  · omega
  · simp [h2]
  · omega
  · simp [h4]
  · have hzero : outchars = 0 := by omega
    simp [hzero]

/-- With four bytes, whatever the text stands for is stored. -/
theorem decodeLoop_length (houtsize : 4 ≤ outsize) {bits outchars : ℕ} (h : outchars < 4) :
    (decodeLoop outsize src bits outchars).1.length =
      3 * (outchars + (src.takeWhile fun c => (base64Value c).isSome).length) / 4 := by
  fun_induction decodeLoop outsize src bits outchars with
  | case1 bits outchars => simp [decodeTail_length houtsize h]
  | case2 bits outchars c src hlt => omega
  | case3 bits outchars c src hge hvalue =>
      simp [decodeTail_length houtsize h, hvalue]
  | case4 bits outchars c src hge v hvalue bits' hlast out errors hrest ih =>
      have hlength := ih (by omega)
      rw [hrest] at hlength
      simp only [List.takeWhile_cons, hvalue, Option.isSome_some, if_true, List.length_cons]
      dsimp only at hlength
      omega
  | case5 bits outchars c src hge v hvalue bits' hlast ih =>
      rw [ih (by omega)]
      simp only [List.takeWhile_cons, hvalue, Option.isSome_some, if_true, List.length_cons]
      omega

/-- With less, nothing is. -/
theorem butilBase64Decode_of_lt (houtsize : outsize < 4) (src : List UInt8) :
    (butilBase64Decode outsize src).out = [] ∧
      (src ≠ [] → (butilBase64Decode outsize src).result = -1) := by
  cases src with
  | nil => exact ⟨rfl, fun hne => absurd rfl hne⟩
  | cons c src =>
      unfold butilBase64Decode decodeLoop
      rw [if_pos houtsize]
      exact ⟨rfl, fun _ => rfl⟩

/-- **The decoder stays in its buffer** iff the buffer has less than four bytes, or what the
text stands for fits. -/
theorem decodes_in_bounds_iff (outsize : ℕ) (src : List UInt8) (houtsize : 1 ≤ outsize) :
    DecodesInBounds outsize src ↔ outsize < 4 ∨ decodedLength src < outsize := by
  by_cases hlt : outsize < 4
  · obtain ⟨hout, hresult⟩ := butilBase64Decode_of_lt hlt src
    refine iff_of_true ⟨?_, fun hlong => hresult ?_⟩ (Or.inl hlt)
    · rw [hout]
      exact houtsize
    · rintro rfl
      simp [decodedLength] at hlong
      omega
  · have hlength := @decodeLoop_length outsize src (not_lt.mp hlt) 0 0 (by omega)
    rw [zero_add] at hlength
    have hout : (butilBase64Decode outsize src).out.length = decodedLength src := hlength
    constructor
    · intro h
      have hstored := h.stored
      omega
    · intro hfits
      refine ⟨?_, fun hlong => ?_⟩
      · omega
      · omega

/-- Six characters, which are four bytes, into five. -/
theorem decodes_in_bounds_iff_five : DecodesInBounds 5 (ascii ['T', 'W', 'F', 'u', 'T', 'Q']) :=
  (decodes_in_bounds_iff 5 (ascii ['T', 'W', 'F', 'u', 'T', 'Q']) (by simp)).mpr (Or.inr (by decide))

/-- Eight characters are decoded into a buffer of four bytes. -/
theorem not_decodes_in_bounds_eight :
    ¬ ∀ (outsize : ℕ) (src : List UInt8), 1 ≤ outsize → 0 ∉ src → DecodesInBounds outsize src := by
  intro h
  have hstored := (h 4 (ascii ['T', 'W', 'F', 'u', 'T', 'W', 'F', 'u']) (by simp)
    (by simp [ascii])).stored
  exact absurd hstored (by decide)

end Decode

/-! ## Encoding -/

section Encode

variable {urlencode hexescape : Bool} {outsize j : ℕ} {src : List UInt8}

/-- A character is at least one character, escaped or not. -/
theorem base64HexencodeByte_length_pos (c : UInt8) : 0 < (base64HexencodeByte c).length := by
  unfold base64HexencodeByte
  split_ifs
  · exact Nat.succ_pos _
  · exact Nat.succ_pos _
  · exact Nat.succ_pos _
  · exact Nat.succ_pos _

/-- A group with escapes has at least four characters, with its padding. -/
theorem encodeGroup_escaped_length (b1 : UInt8) (b2 b3 : Option UInt8) :
    4 ≤ (encodeGroup urlencode true b1 b2 b3).1.length := by
  have hpos := base64HexencodeByte_length_pos
  have hpad : ∀ (b : Option UInt8) (c : UInt8), 0 <
      (if b.isSome = true then base64HexencodeByte c else base64HexencodeByte 61).length := by
    intro b c
    split_ifs
    · exact hpos c
    · exact hpos 61
  simp only [encodeGroup, if_true, List.length_append]
  show 1 + 1 + 1 + 1 ≤ _
  refine Nat.add_le_add (Nat.add_le_add (Nat.add_le_add ?_ ?_) ?_) ?_
  · exact hpos _
  · exact hpos _
  · exact hpad _ _
  · exact hpad _ _

/-- A full group has at least four characters, and `j` counts them. -/
theorem encodeGroup_full (b1 b2 b3 : UInt8) :
    (encodeGroup urlencode hexescape b1 (some b2) (some b3)).2 =
        (encodeGroup urlencode hexescape b1 (some b2) (some b3)).1.length ∧
      4 ≤ (encodeGroup urlencode hexescape b1 (some b2) (some b3)).1.length := by
  cases hexescape with
  | false =>
      rw [encodeGroup_three b1 b2 b3 rfl]
      exact ⟨rfl, le_rfl⟩
  | true => exact ⟨rfl, encodeGroup_escaped_length b1 (some b2) (some b3)⟩

/-- Without a group nothing is overrun. -/
theorem overruns_nil : ¬ Overruns outsize j [] := by
  rintro ⟨before, g, after, hsplit, -⟩
  simp at hsplit

/-- The first group overruns the buffer, or one behind it. -/
theorem overruns_cons {g : List UInt8} {gs : List (List UInt8)} :
    Overruns outsize j (g :: gs) ↔
      j + 4 < outsize ∧ outsize ≤ j + g.length ∨ Overruns outsize (j + g.length) gs := by
  constructor
  · rintro ⟨before, g', after, hsplit, hbegin, hend⟩
    cases before with
    | nil =>
        cases hsplit
        exact Or.inl ⟨hbegin, hend⟩
    | cons b before =>
        cases hsplit
        simp only [List.flatten_cons, List.length_append, ← Nat.add_assoc] at hbegin hend
        exact Or.inr ⟨before, g', after, rfl, hbegin, hend⟩
  · rintro (⟨hbegin, hend⟩ | ⟨before, g', after, rfl, hbegin, hend⟩)
    · exact ⟨[], g, gs, rfl, hbegin, hend⟩
    · refine ⟨g :: before, g', after, rfl, ?_, ?_⟩
      · simpa only [List.flatten_cons, List.length_append, ← Nat.add_assoc] using hbegin
      · simpa only [List.flatten_cons, List.length_append, ← Nat.add_assoc] using hend

/-- What begins in the last four bytes does not overrun. -/
theorem not_overruns_of_le {gs : List (List UInt8)} (h : outsize ≤ j + 4) :
    ¬ Overruns outsize j gs := by
  rintro ⟨before, g, after, -, hbegin, -⟩
  omega

/-- One group overruns the buffer if it alone does. -/
theorem overruns_singleton {g : List UInt8} :
    Overruns outsize j [g] ↔ j + 4 < outsize ∧ outsize ≤ j + g.length := by
  rw [overruns_cons, or_iff_left overruns_nil]

/-- **The loop stores behind the end** exactly when a group overruns. -/
theorem encodeLoop_overruns_iff (houtsize : 4 ≤ outsize) (hj : j < outsize) :
    outsize ≤ j + (encodeLoop urlencode hexescape (outsize - 4) j src).1.length ↔
      Overruns outsize j (groups urlencode hexescape src) := by
  fun_induction encodeLoop urlencode hexescape (outsize - 4) j src with
  | case1 j => exact iff_of_false (by simp; omega) overruns_nil
  | case2 j b1 hlt =>
      rw [groups, overruns_singleton]
      exact ⟨fun h => ⟨by omega, h⟩, fun h => h.2⟩
  | case3 j b1 hge => exact iff_of_false (by simp; omega) (not_overruns_of_le (by omega))
  | case4 j b1 b2 hlt =>
      rw [groups, overruns_singleton]
      exact ⟨fun h => ⟨by omega, h⟩, fun h => h.2⟩
  | case5 j b1 b2 hge => exact iff_of_false (by simp; omega) (not_overruns_of_le (by omega))
  | case6 j b1 b2 b3 src hlt text i hgroup rest whole hloop ih =>
      obtain ⟨hcount, -⟩ := @encodeGroup_full urlencode hexescape b1 b2 b3
      rw [hgroup] at hcount
      dsimp only at hcount
      rw [hloop, hcount] at ih
      rw [groups, overruns_cons, hgroup, List.length_append]
      by_cases hend : outsize ≤ j + text.length
      · exact iff_of_true (by omega) (Or.inl ⟨by omega, hend⟩)
      · rw [or_iff_right (fun h => hend h.2), ← ih (by omega), Nat.add_assoc]
  | case7 j b1 b2 b3 src hge => exact iff_of_false (by simp; omega) (not_overruns_of_le (by omega))

/-- A source that has been encoded to its end has its complete encoding. -/
theorem encodeLoop_of_whole {room : ℕ} (h : (encodeLoop urlencode hexescape room j src).2 = true) :
    (encodeLoop urlencode hexescape room j src).1 = encoding urlencode hexescape src := by
  fun_induction encodeLoop urlencode hexescape room j src with
  | case1 j => rfl
  | case2 j b1 hlt => simp [encoding, groups]
  | case3 j b1 hge => cases h
  | case4 j b1 b2 hlt => simp [encoding, groups]
  | case5 j b1 b2 hge => cases h
  | case6 j b1 b2 b3 src hlt text i hgroup rest whole hloop ih =>
      rw [hloop] at ih
      have hrest := ih h
      dsimp only at hrest
      simp only [encoding, groups, hgroup, List.flatten_cons, hrest]
  | case7 j b1 b2 b3 src hge => cases h

/-- Without escapes no group overruns: it has at most four characters. -/
theorem not_overruns_plain : ¬ Overruns outsize j (groups urlencode false src) := by
  rintro ⟨before, g, after, hsplit, hbegin, hend⟩
  have hfour : ∀ g ∈ groups urlencode false src, g.length ≤ 4 := by
    clear hsplit
    fun_induction groups urlencode false src with
    | case1 => simp
    | case2 b1 =>
        rw [encodeGroup_one b1 rfl]
        cases urlencode <;> simp [padding]
    | case3 b1 b2 =>
        rw [encodeGroup_two b1 b2 rfl]
        cases urlencode <;> simp [padding]
    | case4 b1 b2 b3 src ih =>
        rw [encodeGroup_three b1 b2 b3 rfl]
        simpa using ih
  have hg := hfour g (by rw [hsplit]; simp)
  omega

/-- With less than four bytes there is no limit, so that only what fits anyway stays inside. -/
theorem encode_of_lt (houtsize : outsize < 4) :
    (butilBase64Encode outsize src urlencode hexescape).out.length + 1 ≤ outsize ↔
      (encoding urlencode hexescape src).length < outsize := by
  obtain ⟨room, hroom, hpos⟩ : ∃ room,
      (if 4 ≤ outsize then outsize - 4 else 2 ^ 64 + outsize - 4) = room ∧ 0 < room :=
    ⟨2 ^ 64 + outsize - 4, if_neg (by omega), by omega⟩
  unfold butilBase64Encode
  rw [hroom, Nat.succ_le_iff]
  match src with
  | [] => rfl
  | [b1] => simp [encodeLoop, encoding, groups, hpos]
  | [b1, b2] => simp [encodeLoop, encoding, groups, hpos]
  | b1 :: b2 :: b3 :: src =>
      have hfour := (@encodeGroup_full urlencode hexescape b1 b2 b3).2
      refine iff_of_false ?_ ?_
      · simp only [encodeLoop, if_pos hpos, List.length_append]
        omega
      · simp only [encoding, groups, List.flatten_cons, List.length_append]
        omega

/-- What is returned is -1 or the length of the complete encoding. -/
theorem encode_result (outsize : ℕ) (src : List UInt8) (urlencode hexescape : Bool) :
    (butilBase64Encode outsize src urlencode hexescape).result = -1 ∨
      (butilBase64Encode outsize src urlencode hexescape).out = encoding urlencode hexescape src := by
  unfold butilBase64Encode
  generalize (if 4 ≤ outsize then outsize - 4 else 2 ^ 64 + outsize - 4) = room
  dsimp only
  by_cases hwhole : (encodeLoop urlencode hexescape room 0 src).2 = true
  · exact Or.inr (encodeLoop_of_whole hwhole)
  · exact Or.inl (if_neg hwhole)

/-- With four bytes, what is stored fits unless an escaped group overruns. -/
theorem encode_of_le (houtsize : 4 ≤ outsize) :
    (butilBase64Encode outsize src urlencode hexescape).out.length + 1 ≤ outsize ↔
      (hexescape = true → ¬ Overruns outsize 0 (groups urlencode hexescape src)) := by
  have hroom : (if 4 ≤ outsize then outsize - 4 else 2 ^ 64 + outsize - 4) = outsize - 4 :=
    if_pos houtsize
  have hloop := @encodeLoop_overruns_iff urlencode hexescape outsize 0 src houtsize (by omega)
  rw [zero_add] at hloop
  have hout : (butilBase64Encode outsize src urlencode hexescape).out =
      (encodeLoop urlencode hexescape (outsize - 4) 0 src).1 := by
    unfold butilBase64Encode
    rw [hroom]
  rw [hout, Nat.succ_le_iff, ← not_le, hloop]
  cases hexescape with
  | false => exact iff_of_true not_overruns_plain fun h => by cases h
  | true => exact ⟨fun h _ => h, fun h => h rfl⟩

/-- **The encoder stays in its buffer** iff it has less than four bytes and the encoding fits,
or it has four and no escaped group overruns it. -/
theorem encodes_in_bounds_iff (urlencode hexescape : Bool) (outsize : ℕ) (src : List UInt8) :
    EncodesInBounds urlencode hexescape outsize src ↔
      outsize < 4 ∧ (encoding urlencode hexescape src).length < outsize ∨
        4 ≤ outsize ∧ (hexescape = true → ¬ Overruns outsize 0 (groups urlencode hexescape src)) := by
  have hstored : (butilBase64Encode outsize src urlencode hexescape).out.length + 1 ≤ outsize ↔
      outsize < 4 ∧ (encoding urlencode hexescape src).length < outsize ∨
        4 ≤ outsize ∧ (hexescape = true → ¬ Overruns outsize 0 (groups urlencode hexescape src)) := by
    by_cases hlt : outsize < 4
    · rw [encode_of_lt hlt]
      exact ⟨fun h => Or.inl ⟨hlt, h⟩, fun h => (h.resolve_right fun h' => by omega).2⟩
    · rw [encode_of_le (by omega)]
      exact ⟨fun h => Or.inr ⟨by omega, h⟩, fun h => (h.resolve_left fun h' => hlt h'.1).2⟩
  rw [← hstored]
  refine ⟨fun h => h.stored, fun h => ⟨h, fun hlong => ?_⟩⟩
  cases encode_result outsize src urlencode hexescape with
  | inl hfailed => exact hfailed
  | inr hwhole =>
      rw [hwhole] at h
      omega

/-- Three bytes that are escaped to twelve characters in a buffer of five. -/
theorem not_encodes_in_bounds_escaped :
    ¬ ∀ (urlencode hexescape : Bool) (outsize : ℕ) (src : List UInt8), 1 ≤ outsize →
      EncodesInBounds urlencode hexescape outsize src := by
  intro h
  have hstored := (h false true 5 [0xFB, 0xEF, 0xBE] (by simp)).stored
  exact absurd hstored (by decide)

end Encode

end SmbProxy.Analysis
