import Mathlib.Data.List.TakeWhile
import Mathlib.Data.Nat.Digits.Defs
import Mathlib.Data.Nat.Digits.Lemmas
import Mathlib.Data.UInt
import Mathlib.Logic.Function.Basic
import Mathlib.Tactic.Common
import Mathlib.Tactic.SplitIfs

/-!
# Strings of C

A string is the list of its bytes before the NUL. Here are the functions of the standard
library that compare, search, convert and copy strings, in the C locale and with a 64-bit
`unsigned long`. A `Buffer` records the indices that have been stored to beside what is in
its cells; `Buffer.Holds` says that it holds a string with its NUL.

Scanners read past a chunk that has none of the bytes they look for (`strstr_behind`,
`takeWhile_append_stop`), and `strtoul` reads back what `%u` prints (`strtoul_decimal`). For
texts of any kind there are `strstr_append_iff` and `strtoul_whole_iff`.
-/

set_option autoImplicit false

namespace SmbProxy.Library

/-- The bytes of a string literal. -/
def ascii (chars : List Char) : List UInt8 := chars.map fun c => UInt8.ofNat c.toNat

/-- The same for a string. -/
def cstring (s : String) : List UInt8 := s.toUTF8.data.toList

/-! ## Comparing -/

def tolower (c : UInt8) : UInt8 := if 65 ≤ c ∧ c ≤ 90 then c + 32 else c

/-- `strcasecmp`: negative, 0 or positive. -/
def strcasecmp : List UInt8 → List UInt8 → ℤ
  | [], [] => 0
  | [], _ :: _ => -1
  | _ :: _, [] => 1
  | c :: s, d :: t =>
    if tolower c = tolower d then strcasecmp s t else (tolower c).toNat - (tolower d).toNat

def strncasecmp (s t : List UInt8) (n : ℕ) : ℤ := strcasecmp (s.take n) (t.take n)

/-- Strings are the same for `strcasecmp` if they are without capitals. -/
theorem strcasecmp_eq_zero (s t : List UInt8) :
    strcasecmp s t = 0 ↔ s.map tolower = t.map tolower := by
  induction s generalizing t with
  | nil => cases t <;> simp [strcasecmp]
  | cons c s ih =>
      cases t with
      | nil => simp [strcasecmp]
      | cons d t =>
          simp only [strcasecmp, List.map_cons, List.cons.injEq]
          by_cases hcd : tolower c = tolower d
          · simp [hcd, ih]
          · have hne : (tolower c).toNat ≠ (tolower d).toNat := by
              intro heq
              exact hcd (UInt8.toNat_inj.mp heq)
            rw [if_neg hcd]
            simp only [hcd, false_and, iff_false]
            omega

/-! ## Searching -/

/-- `strstr`: the index of the first occurrence. -/
def strstr : List UInt8 → List UInt8 → Option ℕ
  | [], needle => if needle = [] then some 0 else none
  | c :: s, needle =>
    if needle.isPrefixOf (c :: s) then some 0 else (strstr s needle).map (· + 1)

section Strstr

variable {s needle : List UInt8} {k : ℕ}

/-- The index of the first occurrence is the first index with an occurrence. -/
theorem strstr_eq_some_iff (hne : needle ≠ []) :
    strstr s needle = some k ↔ needle <+: s.drop k ∧ ∀ j, j < k → ¬ needle <+: s.drop j := by
  induction s generalizing k with
  | nil =>
      rw [strstr, if_neg hne]
      refine iff_of_false (by simp) ?_
      rintro ⟨hbegin, -⟩
      rw [List.drop_nil, List.prefix_nil] at hbegin
      exact hne hbegin
  | cons c s ih =>
      rw [strstr]
      by_cases hbegin : needle <+: c :: s
      · rw [if_pos (List.isPrefixOf_iff_prefix.mpr hbegin)]
        constructor
        · rintro ⟨⟩
          exact ⟨hbegin, fun j hj => absurd hj (Nat.not_lt_zero j)⟩
        · rintro ⟨-, hfirst⟩
          have hzero : k = 0 := by
            by_contra hk
            exact hfirst 0 (Nat.pos_of_ne_zero hk) hbegin
          rw [hzero]
      · rw [if_neg fun h => hbegin (List.isPrefixOf_iff_prefix.mp h)]
        cases k with
        | zero =>
            refine iff_of_false (by simp) ?_
            rintro ⟨h, -⟩
            exact hbegin h
        | succ k =>
            rw [Option.map_eq_some_iff]
            constructor
            · rintro ⟨i, hi, hik⟩
              obtain rfl : i = k := Nat.succ.inj hik
              obtain ⟨hat, hfirst⟩ := ih.mp hi
              refine ⟨hat, fun j hj => ?_⟩
              cases j with
              | zero => exact hbegin
              | succ j => exact hfirst j (Nat.lt_of_succ_lt_succ hj)
            · rintro ⟨hat, hfirst⟩
              exact ⟨k, ih.mpr ⟨hat, fun j hj => hfirst (j + 1) (Nat.succ_lt_succ hj)⟩, rfl⟩

/-- `strstr` finds nothing exactly where there is nothing. -/
theorem strstr_eq_none_iff (hne : needle ≠ []) : strstr s needle = none ↔ ¬ needle <:+: s := by
  induction s with
  | nil => simp [strstr, hne]
  | cons c s ih =>
      rw [strstr, List.infix_cons_iff, not_or, ← ih]
      by_cases hbegin : needle <+: c :: s
      · rw [if_pos (List.isPrefixOf_iff_prefix.mpr hbegin)]
        simp [hbegin]
      · rw [if_neg fun h => hbegin (List.isPrefixOf_iff_prefix.mp h)]
        simp [hbegin]

/-- What `strstr` finds is there. -/
theorem exists_of_strstr (hne : needle ≠ []) (h : strstr s needle = some k) :
    ∃ before rest, s = before ++ needle ++ rest ∧ before.length = k := by
  obtain ⟨⟨rest, hrest⟩, -⟩ := (strstr_eq_some_iff hne).mp h
  have hk : k ≤ s.length := by
    by_contra hlong
    rw [List.drop_eq_nil_of_le (by omega)] at hrest
    exact hne (List.append_eq_nil_iff.mp hrest).1
  refine ⟨s.take k, rest, ?_, by rw [List.length_take, Nat.min_eq_left hk]⟩
  rw [List.append_assoc, hrest, List.take_append_drop]

/-- A string is found behind a chunk iff it does not begin in the chunk. -/
theorem strstr_append_iff (hne : needle ≠ []) (chunk rest : List UInt8) :
    strstr (chunk ++ needle ++ rest) needle = some chunk.length ↔
      ¬ needle <:+: chunk ++ needle.dropLast := by
  have hpos := List.length_pos_iff.mpr hne
  have hdrop : (chunk ++ needle ++ rest).drop chunk.length = needle ++ rest := by
    rw [List.append_assoc, List.drop_left]
  rw [strstr_eq_some_iff hne, hdrop, and_iff_right (List.prefix_append needle rest)]
  have hwhole : chunk ++ needle.dropLast <+: chunk ++ needle ++ rest := by
    rw [List.append_assoc]
    exact List.prefix_append_right_inj chunk |>.mpr
      ((List.dropLast_prefix needle).trans (List.prefix_append needle rest))
  constructor
  · rintro hfirst ⟨x, y, hxy⟩
    have hlength := congrArg List.length hxy
    simp only [List.length_append, List.length_dropLast] at hlength
    apply hfirst x.length (by omega)
    obtain ⟨z, hz⟩ := hwhole
    rw [← hz, ← hxy, List.append_assoc, List.append_assoc, List.drop_left]
    exact List.prefix_append needle (y ++ z)
  · intro hnot j hj hbegin
    apply hnot
    have htake : (chunk ++ needle ++ rest).take (j + needle.length) <+:
        chunk ++ needle.dropLast := by
      apply List.prefix_of_prefix_length_le (List.take_prefix _ _) hwhole
      simp only [List.length_take, List.length_append, List.length_dropLast]
      omega
    refine List.IsInfix.trans ?_ htake.isInfix
    rw [List.take_add, ← List.prefix_iff_eq_take.mp hbegin]
    exact (List.suffix_append _ needle).isInfix

/-- A string is found behind a chunk that does not have it, if its first byte does not come
again in it. -/
theorem strstr_behind {c : UInt8} (hc : c ∉ needle) {chunk : List UInt8}
    (h : ¬ c :: needle <:+: chunk) (rest : List UInt8) :
    strstr (chunk ++ c :: needle ++ rest) (c :: needle) = some chunk.length := by
  induction chunk with
  | nil => simp [strstr]
  | cons d chunk ih =>
      rw [List.infix_cons_iff, not_or] at h
      have hbegin : ¬ c :: needle <+: d :: (chunk ++ c :: needle ++ rest) := by
        intro hbegin
        have hchunk : d :: chunk <+: d :: (chunk ++ c :: needle ++ rest) :=
          ⟨c :: needle ++ rest, by simp⟩
        cases Nat.le_total (c :: needle).length (d :: chunk).length with
        | inl hle => exact h.1 (List.prefix_of_prefix_length_le hbegin hchunk hle)
        | inr hle =>
            -- the chunk ends in the string, whose first byte then follows inside it
            obtain ⟨u, hu⟩ := List.prefix_of_prefix_length_le hchunk hbegin hle
            cases u with
            | nil =>
                rw [List.append_nil] at hu
                exact h.1 (hu ▸ List.prefix_rfl)
            | cons e u =>
                obtain ⟨v, hv⟩ := hbegin
                rw [← hu] at hv
                simp only [List.cons_append, List.append_assoc, List.cons.injEq, true_and,
                  List.append_cancel_left_eq] at hv
                simp only [List.cons_append, List.cons.injEq] at hu
                have he : e = c := hv.1.trans hu.1
                apply hc
                rw [← hu.2, ← he]
                exact List.mem_append_right _ List.mem_cons_self
      show strstr (d :: (chunk ++ c :: needle ++ rest)) (c :: needle) = some (chunk.length + 1)
      rw [strstr, if_neg fun hp => hbegin (List.isPrefixOf_iff_prefix.mp hp), ih h.2]
      rfl

end Strstr

section Scan

variable {α : Type*} {p : α → Bool} {chunk rest : List α}

/-- A scan that stops inside a chunk stops at what follows it at the latest. -/
theorem takeWhile_append_cons {a : α} (ha : p a = false) (chunk rest : List α) :
    (chunk ++ a :: rest).takeWhile p = chunk.takeWhile p := by
  induction chunk with
  | nil => simp [ha]
  | cons b chunk ih =>
      rw [List.cons_append, List.takeWhile_cons, List.takeWhile_cons, ih]

/-- What is dropped ends at the first character that stops it, or before. -/
theorem dropWhile_append_cons {a : α} (ha : p a = false) (chunk rest : List α) :
    (chunk ++ a :: rest).dropWhile p = chunk.dropWhile p ++ a :: rest := by
  induction chunk with
  | nil => simp [ha]
  | cons b chunk ih =>
      rw [List.cons_append, List.dropWhile_cons, List.dropWhile_cons, ih]
      split_ifs
      · rfl
      · rfl

/-- A scan stops behind a chunk of what it goes over. -/
theorem takeWhile_append_stop (hchunk : ∀ a ∈ chunk, p a = true)
    (hrest : ∀ a ∈ rest.head?, p a = false) : (chunk ++ rest).takeWhile p = chunk := by
  rw [List.takeWhile_append_of_pos hchunk]
  cases rest with
  | nil => simp
  | cons a rest => simp [hrest a rfl]

/-- What is dropped is the part in front of the first character that stops it. -/
theorem dropWhile_append_stop (hchunk : ∀ a ∈ chunk, p a = true)
    (hrest : ∀ a ∈ rest.head?, p a = false) : (chunk ++ rest).dropWhile p = rest := by
  rw [List.dropWhile_append_of_pos hchunk]
  cases rest with
  | nil => rfl
  | cons a rest => simp [hrest a rfl]

end Scan

/-! ## Numbers -/

def isspace (c : UInt8) : Bool := c = 32 ∨ (9 ≤ c ∧ c ≤ 13)

def isdigit (c : UInt8) : Bool := 48 ≤ c ∧ c ≤ 57

/-- The value of a run of decimal digits. -/
def digitsValue (digits : List UInt8) : ℕ :=
  digits.foldl (fun n c => 10 * n + (c.toNat - 48)) 0

/-- `strtoul` in base 10: the value, and the text from the end pointer on. -/
def strtoul (s : List UInt8) : ℕ × List UInt8 :=
  let blank := s.dropWhile isspace
  let signed := if blank.head? = some 43 ∨ blank.head? = some 45 then blank.tail else blank
  let digits := signed.takeWhile isdigit
  if digits = [] then (0, s)
  else if 2 ^ 64 ≤ digitsValue digits then (2 ^ 64 - 1, signed.dropWhile isdigit)
  else if blank.head? = some 45 then
    ((2 ^ 64 - digitsValue digits) % 2 ^ 64, signed.dropWhile isdigit)
  else (digitsValue digits, signed.dropWhile isdigit)

/-- The value of a digit of any base, and 36 for what is no digit. -/
def digitIn (c : UInt8) : ℕ :=
  if isdigit c then c.toNat - 48
  else if 97 ≤ tolower c ∧ tolower c ≤ 122 then (tolower c).toNat - 87
  else 36

/-- The base of a number that says it itself, and the text from its digits on: `0x` with a
hexadecimal digit behind it, or `0`, or neither. -/
def baseOf (s : List UInt8) : ℕ × List UInt8 :=
  if s.head? = some 48 ∧ (s.drop 1).head?.map tolower = some 120 ∧
      (s.drop 2).head?.any (fun d => digitIn d < 16) then (16, s.drop 2)
  else if s.head? = some 48 then (8, s)
  else (10, s)

/-- `strtoul` in base 0: the value, and the text from the end pointer on. -/
def strtoul0 (s : List UInt8) : ℕ × List UInt8 :=
  let blank := s.dropWhile isspace
  let signed := if blank.head? = some 43 ∨ blank.head? = some 45 then blank.tail else blank
  let base := (baseOf signed).1
  let text := (baseOf signed).2
  let digits := text.takeWhile fun c => digitIn c < base
  let value := digits.foldl (fun n c => base * n + digitIn c) 0
  if digits = [] then (0, s)
  else if 2 ^ 64 ≤ value then (2 ^ 64 - 1, text.dropWhile fun c => digitIn c < base)
  else if blank.head? = some 45 then
    ((2 ^ 64 - value) % 2 ^ 64, text.dropWhile fun c => digitIn c < base)
  else (value, text.dropWhile fun c => digitIn c < base)

/-- What `%u` prints. -/
def decimal (n : ℕ) : List UInt8 :=
  if n = 0 then [48] else (Nat.digits 10 n).reverse.map fun d => UInt8.ofNat (48 + d)

/-- A digit is no space. -/
theorem isspace_eq_false_of_isdigit {c : UInt8} (h : isdigit c = true) : isspace c = false := by
  simp only [isdigit, decide_eq_true_eq, UInt8.le_iff_toNat_le] at h
  simp only [isspace, decide_eq_false_iff_not, UInt8.le_iff_toNat_le, ← UInt8.toNat_inj]
  have h48 : (48 : UInt8).toNat = 48 := rfl
  have h32 : (32 : UInt8).toNat = 32 := rfl
  have h13 : (13 : UInt8).toNat = 13 := rfl
  omega

/-- `strtoul` reads a run of digits that another byte or the end follows. -/
theorem strtoul_digits {digits rest : List UInt8} (hne : digits ≠ [])
    (hdigits : ∀ c ∈ digits, isdigit c = true) (hvalue : digitsValue digits < 2 ^ 64)
    (hrest : ∀ c ∈ rest.head?, isdigit c = false) :
    strtoul (digits ++ rest) = (digitsValue digits, rest) := by
  obtain ⟨c, digits', rfl⟩ := List.exists_cons_of_ne_nil hne
  have hc := hdigits c List.mem_cons_self
  have hblank : (c :: digits' ++ rest).dropWhile isspace = c :: digits' ++ rest := by
    simp [isspace_eq_false_of_isdigit hc]
  have hplus : c ≠ 43 := by
    rintro rfl
    cases hc
  have hminus : c ≠ 45 := by
    rintro rfl
    cases hc
  have htake := takeWhile_append_stop hdigits hrest
  have hdrop := dropWhile_append_stop hdigits hrest
  unfold strtoul
  simp only [hblank]
  have hhead : (c :: digits' ++ rest).head? = some c := rfl
  simp only [hhead, Option.some.injEq, hplus, hminus, or_self, if_false, htake, hdrop, hne]
  rw [if_neg (by omega)]

/-- `strtoul` reads nothing behind a byte that is no part of a number. -/
theorem strtoul_append_stop {c : UInt8} (hspace : isspace c = false) (hdigit : isdigit c = false)
    (hsign : c ≠ 43 ∧ c ≠ 45) (s rest : List UInt8) :
    strtoul (s ++ c :: rest) = ((strtoul s).1, (strtoul s).2 ++ c :: rest) := by
  have hhead : ∀ (blank : List UInt8) (d : UInt8), c ≠ d →
      ((blank ++ c :: rest).head? = some d ↔ blank.head? = some d) := by
    intro blank d hd
    cases blank with
    | nil => simp [hd]
    | cons b blank => rfl
  have htail : ∀ blank : List UInt8, blank.head? = some 43 ∨ blank.head? = some 45 →
      (blank ++ c :: rest).tail = blank.tail ++ c :: rest := by
    intro blank h
    cases blank with
    | nil => simp at h
    | cons b blank => rfl
  unfold strtoul
  simp only [dropWhile_append_cons hspace, hhead _ 43 hsign.1, hhead _ 45 hsign.2]
  generalize s.dropWhile isspace = blank
  by_cases hsigned : blank.head? = some 43 ∨ blank.head? = some 45
  · simp only [if_pos hsigned, htail blank hsigned, takeWhile_append_cons hdigit,
      dropWhile_append_cons hdigit]
    split_ifs
    · rfl
    · rfl
    · rfl
    · rfl
  · simp only [if_neg hsigned, takeWhile_append_cons hdigit, dropWhile_append_cons hdigit]
    split_ifs
    · rfl
    · rfl
    · rfl
    · rfl

/-- Blanks, a sign or none, and digits. -/
structure IsNumber (blanks sign digits s : List UInt8) : Prop where
  text : s = blanks ++ (sign ++ digits)
  blank : ∀ c ∈ blanks, isspace c = true
  sign : sign = [] ∨ sign = [43] ∨ sign = [45]
  digits_ne : digits ≠ []
  digit : ∀ c ∈ digits, isdigit c = true

section Strtoul

variable {blanks sign digits s : List UInt8}

/-- What `strtoul` reads of a number, and that it reads all of it. -/
theorem strtoul_number (h : IsNumber blanks sign digits s) :
    strtoul s =
      (if 2 ^ 64 ≤ digitsValue digits then 2 ^ 64 - 1
        else if sign = [45] then (2 ^ 64 - digitsValue digits) % 2 ^ 64
        else digitsValue digits, []) := by
  obtain ⟨rfl, hblank, hsign, hne, hdigit⟩ := h
  obtain ⟨d, ds, rfl⟩ := List.exists_cons_of_ne_nil hne
  have hd : isdigit d = true := hdigit d List.mem_cons_self
  have hstop : ∀ c ∈ (sign ++ d :: ds).head?, isspace c = false := by
    intro c hc
    rcases hsign with rfl | rfl | rfl
    · cases hc
      exact isspace_eq_false_of_isdigit hd
    · cases hc
      rfl
    · cases hc
      rfl
  have hplus : d ≠ 43 := by
    rintro rfl
    cases hd
  have hminus : d ≠ 45 := by
    rintro rfl
    cases hd
  have hfirst : (sign ++ d :: ds).head? = some 45 ↔ sign = [45] := by
    rcases hsign with rfl | rfl | rfl
    · simp [hminus]
    · simp
    · simp
  have hsigned : (if (sign ++ d :: ds).head? = some 43 ∨ (sign ++ d :: ds).head? = some 45 then
      (sign ++ d :: ds).tail else sign ++ d :: ds) = d :: ds := by
    rcases hsign with rfl | rfl | rfl
    · simp [hplus, hminus]
    · rfl
    · rfl
  have htake : (d :: ds).takeWhile isdigit = d :: ds := List.takeWhile_eq_self_iff.mpr hdigit
  have hdrop : (d :: ds).dropWhile isdigit = [] := List.dropWhile_eq_nil_iff.mpr hdigit
  unfold strtoul
  simp only [dropWhile_append_stop hblank hstop, hsigned, htake, hdrop, if_neg hne]
  simp only [hfirst]
  split_ifs
  · rfl
  · rfl
  · rfl

/-- `strtoul` reads a whole text iff the text is empty or a number. -/
theorem strtoul_whole_iff (s : List UInt8) :
    (strtoul s).2 = [] ↔ s = [] ∨ ∃ blanks sign digits, IsNumber blanks sign digits s := by
  constructor
  · intro h
    unfold strtoul at h
    dsimp only at h
    have hblanks := List.takeWhile_append_dropWhile (p := isspace) (l := s)
    generalize s.dropWhile isspace = blank at h hblanks
    obtain ⟨sign, hsign, hsigned⟩ : ∃ sign, (sign = [] ∨ sign = [43] ∨ sign = [45]) ∧
        blank = sign ++ (if blank.head? = some 43 ∨ blank.head? = some 45 then blank.tail
          else blank) := by
      split_ifs with hhead
      · cases hhead with
        | inl hplus => exact ⟨[43], Or.inr (Or.inl rfl), (List.cons_head?_tail hplus).symm⟩
        | inr hminus => exact ⟨[45], Or.inr (Or.inr rfl), (List.cons_head?_tail hminus).symm⟩
      · exact ⟨[], Or.inl rfl, rfl⟩
    generalize (if blank.head? = some 43 ∨ blank.head? = some 45 then blank.tail else blank) =
      signed at h hsigned
    by_cases hempty : signed.takeWhile isdigit = []
    · rw [if_pos hempty] at h
      exact Or.inl h
    · rw [if_neg hempty] at h
      have hall : signed.dropWhile isdigit = [] := by
        split_ifs at h
        · exact h
        · exact h
        · exact h
      have hdigit := List.dropWhile_eq_nil_iff.mp hall
      rw [List.takeWhile_eq_self_iff.mpr hdigit] at hempty
      refine Or.inr ⟨s.takeWhile isspace, sign, signed, ?_, ?_, hsign, hempty, hdigit⟩
      · rw [← hsigned, hblanks]
      · exact fun c hc => List.mem_takeWhile_imp hc
  · rintro (rfl | ⟨blanks, sign, digits, h⟩)
    · rfl
    · rw [strtoul_number h]

/-- What is left of a text behind a sign. -/
theorem unsigned_suffix (s : List UInt8) :
    (if s.head? = some 43 ∨ s.head? = some 45 then s.tail else s) <:+ s := by
  split_ifs
  · exact List.tail_suffix s
  · exact List.suffix_rfl

/-- The end pointer of `strtoul` is in the text. -/
theorem strtoul_suffix (s : List UInt8) : (strtoul s).2 <:+ s := by
  unfold strtoul
  dsimp only
  have hblank : s.dropWhile isspace <:+ s := List.dropWhile_suffix isspace
  generalize s.dropWhile isspace = blank at hblank ⊢
  have hsigned := unsigned_suffix blank
  generalize (if blank.head? = some 43 ∨ blank.head? = some 45 then blank.tail else blank) =
    signed at hsigned ⊢
  have hrest : signed.dropWhile isdigit <:+ s := calc
    signed.dropWhile isdigit <:+ signed := List.dropWhile_suffix isdigit
    _ <:+ blank := hsigned
    _ <:+ s := hblank
  split_ifs
  · exact List.suffix_rfl
  · exact hrest
  · exact hrest
  · exact hrest

/-- What is behind the prefix of a base is behind it in the text. -/
theorem baseOf_suffix (s : List UInt8) : (baseOf s).2 <:+ s := by
  unfold baseOf
  split_ifs
  · exact List.drop_suffix 2 s
  · exact List.suffix_rfl
  · exact List.suffix_rfl

/-- What is behind a number is behind it in the text. -/
theorem strtoul0_suffix (s : List UInt8) : (strtoul0 s).2 <:+ s := by
  unfold strtoul0
  dsimp only
  have hblank : s.dropWhile isspace <:+ s := List.dropWhile_suffix isspace
  generalize s.dropWhile isspace = blank at hblank ⊢
  have hsigned := unsigned_suffix blank
  generalize (if blank.head? = some 43 ∨ blank.head? = some 45 then blank.tail else blank) =
    signed at hsigned ⊢
  have hrest : (baseOf signed).2.dropWhile (fun c => decide (digitIn c < (baseOf signed).1)) <:+ s :=
    calc
      _ <:+ (baseOf signed).2 := List.dropWhile_suffix _
      _ <:+ signed := baseOf_suffix signed
      _ <:+ blank := hsigned
      _ <:+ s := hblank
  split_ifs
  · exact List.suffix_rfl
  · exact hrest
  · exact hrest
  · exact hrest

/-- There is no number where the text begins with what is no blank, sign or decimal digit. -/
theorem strtoul0_none {c : UInt8} (hspace : isspace c = false) (hsign : c ≠ 43 ∧ c ≠ 45)
    (hdigit : 10 ≤ digitIn c) (s : List UInt8) : strtoul0 (c :: s) = (0, c :: s) := by
  have hzero : c ≠ 48 := by
    rintro rfl
    exact absurd hdigit (by decide)
  have hbase : baseOf (c :: s) = (10, c :: s) := by
    simp [baseOf, hzero]
  unfold strtoul0
  simp [hspace, hsign.1, hsign.2, hbase, not_lt.mpr hdigit]

end Strtoul

/-- The digits of a number have its value. -/
theorem digitsValue_decimal {n : ℕ} : digitsValue (decimal n) = n := by
  unfold decimal
  by_cases hn : n = 0
  · rw [if_pos hn, hn]
    rfl
  · rw [if_neg hn]
    unfold digitsValue
    rw [List.foldl_map, List.foldl_reverse]
    have hdigits : ∀ d ∈ Nat.digits 10 n, d < 10 := fun d hd => Nat.digits_lt_base (by decide) hd
    conv_rhs => rw [← Nat.ofDigits_digits 10 n]
    generalize Nat.digits 10 n = ds at hdigits
    induction ds with
    | nil => rfl
    | cons d ds ih =>
        have hd := hdigits d List.mem_cons_self
        have htoNat : (UInt8.ofNat (48 + d)).toNat = 48 + d := by
          rw [UInt8.toNat_ofNat']
          omega
        rw [List.foldr_cons, ih fun e he => hdigits e (List.mem_cons_of_mem d he), htoNat,
          Nat.ofDigits_cons]
        omega

/-- They are digits. -/
theorem isdigit_decimal {n : ℕ} : ∀ c ∈ decimal n, isdigit c = true := by
  intro c hc
  unfold decimal at hc
  by_cases hn : n = 0
  · rw [if_pos hn, List.mem_singleton] at hc
    rw [hc]
    rfl
  · rw [if_neg hn, List.mem_map] at hc
    obtain ⟨d, hd, rfl⟩ := hc
    have hlt : d < 10 := Nat.digits_lt_base (by decide) (List.mem_reverse.mp hd)
    interval_cases d <;> rfl

/-- There is at least one. -/
theorem decimal_ne_nil {n : ℕ} : decimal n ≠ [] := by
  unfold decimal
  by_cases hn : n = 0
  · simp [hn]
  · simp [hn, Nat.digits_ne_nil_iff_ne_zero.mpr hn]

/-- A number below `10 ^ k` has at most `k` digits. -/
theorem length_decimal_le {n k : ℕ} (hk : 0 < k) (h : n < 10 ^ k) : (decimal n).length ≤ k := by
  unfold decimal
  by_cases hn : n = 0
  · rw [if_pos hn]
    exact hk
  · rw [if_neg hn, List.length_map, List.length_reverse]
    exact (Nat.digits_length_le_iff (by decide) n).mpr h

/-- `strtoul` reads back what `%u` has printed. -/
theorem strtoul_decimal {n : ℕ} (h : n < 2 ^ 64) {rest : List UInt8}
    (hrest : ∀ c ∈ rest.head?, isdigit c = false) : strtoul (decimal n ++ rest) = (n, rest) := by
  have hvalue : digitsValue (decimal n) < 2 ^ 64 := by
    rw [digitsValue_decimal]
    exact h
  rw [strtoul_digits decimal_ne_nil isdigit_decimal hvalue hrest, digitsValue_decimal]

/-! ## Buffers -/

/-- A buffer that a function is given, with the indices it has stored to, the latest first. -/
structure Buffer where
  cells : ℕ → UInt8
  stored : List ℕ

namespace Buffer

def store (b : Buffer) (i : ℕ) (c : UInt8) : Buffer :=
  { cells := Function.update b.cells i c, stored := i :: b.stored }

/-- `strncpy`: NULs behind the end of the string. -/
def strncpy (b : Buffer) (s : List UInt8) : ℕ → Buffer
  | 0 => b
  | n + 1 => (b.strncpy s n).store n (s.getD n 0)

/-- `snprintf` of the text: the value it returns, a length as an `int`. -/
def snprintf (b : Buffer) (n : ℕ) (text : List UInt8) : ℤ × Buffer :=
  if 2 ^ 31 ≤ text.length then (-1, b)
  else if n = 0 then (text.length, b)
  else
    let k := min text.length (n - 1)
    (text.length, (b.strncpy text k).store k 0)

/-- The buffer holds the string with its NUL. -/
def Holds (b : Buffer) (text : List UInt8) : Prop :=
  (∀ i (h : i < text.length), b.cells i = text.get ⟨i, h⟩) ∧ b.cells text.length = 0

/-- `strncpy` stores the string and zeros behind it, `n` cells in all. -/
theorem cells_strncpy (b : Buffer) (s : List UInt8) (n i : ℕ) :
    (b.strncpy s n).cells i = if i < n then s.getD i 0 else b.cells i := by
  induction n with
  | zero => rfl
  | succ n ih =>
      show Function.update (b.strncpy s n).cells n (s.getD n 0) i = _
      by_cases hi : i = n
      · rw [hi, Function.update_self, if_pos (by omega)]
      · rw [Function.update_of_ne hi, ih]
        by_cases hlt : i < n
        · rw [if_pos hlt, if_pos (by omega)]
        · rw [if_neg hlt, if_neg (by omega)]

/-- `strncpy` reads no more of a string than it copies. -/
theorem strncpy_take (b : Buffer) (s : List UInt8) (n : ℕ) :
    b.strncpy (s.take n) n = b.strncpy s n := by
  have hle : ∀ k ≤ n, b.strncpy (s.take n) k = b.strncpy s k := by
    intro k hk
    induction k with
    | zero => rfl
    | succ k ih =>
        have hcell : (s.take n).getD k 0 = s.getD k 0 := by
          rw [List.getD_eq_getElem?_getD, List.getD_eq_getElem?_getD, List.getElem?_take_of_lt hk]
        rw [strncpy, strncpy, ih (Nat.le_of_succ_le hk), hcell]
  exact hle n (Nat.le_refl n)

/-- It stores in these cells and in no others. -/
theorem mem_stored_strncpy (b : Buffer) (s : List UInt8) (n i : ℕ) :
    i ∈ (b.strncpy s n).stored ↔ i < n ∨ i ∈ b.stored := by
  induction n with
  | zero => simp [strncpy]
  | succ n ih =>
      show i ∈ n :: (b.strncpy s n).stored ↔ _
      rw [List.mem_cons, ih, ← or_assoc]
      exact or_congr_left (by omega)

/-- What has been copied and terminated is there. -/
theorem holds_strncpy (b : Buffer) {s : List UInt8} {n : ℕ} (h : n ≤ s.length) :
    ((b.strncpy s n).store n 0).Holds (s.take n) := by
  have hlength : (s.take n).length = n := by simp [h]
  refine ⟨fun i hi => ?_, ?_⟩
  · rw [hlength] at hi
    show Function.update (b.strncpy s n).cells n 0 i = _
    rw [Function.update_of_ne (by omega), cells_strncpy, if_pos hi]
    have his : i < s.length := by omega
    simp [his]
  · rw [hlength]
    exact Function.update_self _ _ _

/-- A string copied with its NUL is then held. -/
theorem holds_copy (b : Buffer) (s : List UInt8) :
    ((b.strncpy s s.length).store s.length 0).Holds s := by
  have hholds := b.holds_strncpy (Nat.le_refl s.length)
  rwa [List.take_length] at hholds

/-- `strncpy` into a buffer of `n + 1` bytes, with a NUL at its end. -/
theorem holds_truncated (b : Buffer) (s : List UInt8) (n : ℕ) :
    ((b.strncpy s n).store n 0).Holds (s.take n) := by
  by_cases hn : n ≤ s.length
  · exact b.holds_strncpy hn
  · have hlt : s.length < n := Nat.lt_of_not_le hn
    have hcell : ∀ i < n, ((b.strncpy s n).store n 0).cells i = s.getD i 0 := by
      intro i hi
      show Function.update (b.strncpy s n).cells n 0 i = s.getD i 0
      rw [Function.update_of_ne (Nat.ne_of_lt hi), cells_strncpy, if_pos hi]
    rw [List.take_of_length_le hlt.le]
    refine ⟨fun i hi => ?_, ?_⟩
    · rw [hcell i (hi.trans hlt)]
      simp [hi]
    · rw [hcell s.length hlt]
      simp

/-- The string in a buffer of `n` bytes. -/
def text (b : Buffer) (n : ℕ) : List UInt8 := ((List.range n).map b.cells).takeWhile (· ≠ 0)

/-- What a buffer holds is what is read from it. -/
theorem Holds.text_eq {b : Buffer} {s : List UInt8} {n : ℕ} (h : b.Holds s) (hlength : s.length < n)
    (hnul : 0 ∉ s) : b.text n = s := by
  obtain ⟨k, rfl⟩ : ∃ k, n = s.length + (k + 1) := ⟨n - s.length - 1, by omega⟩
  have hmap : (List.range s.length).map b.cells = s := by
    apply List.ext_getElem
    · simp
    · intro i hi hi'
      simp [h.1 i hi']
  unfold text
  rw [List.range_add, List.map_append, hmap]
  apply takeWhile_append_stop
  · intro c hc
    exact decide_eq_true fun hzero => hnul (hzero ▸ hc)
  · -- behind the string there is its NUL
    rw [List.range_succ_eq_map]
    simp [h.2]

/-- With room for it, `snprintf` stores the text and returns its length. -/
theorem snprintf_of_lt (b : Buffer) {n : ℕ} {text : List UInt8} (hn : text.length < n)
    (hint : text.length < 2 ^ 31) :
    (b.snprintf n text).1 = text.length ∧ (b.snprintf n text).2.Holds text := by
  have hmin : min text.length (n - 1) = text.length := by omega
  unfold snprintf
  rw [if_neg (by omega), if_neg (by omega), hmin]
  exact ⟨rfl, b.holds_copy text⟩

/-- A buffer holds one string. -/
theorem Holds.unique {b : Buffer} {text text' : List UInt8} (h : b.Holds text) (h' : b.Holds text')
    (hnul : 0 ∉ text) (hnul' : 0 ∉ text') : text = text' := by
  have hle : ∀ {s t : List UInt8}, b.Holds s → b.Holds t → 0 ∉ t → t.length ≤ s.length := by
    intro s t hs ht hnul
    by_contra hlt
    have hzero := ht.1 s.length (by omega)
    rw [hs.2] at hzero
    exact hnul (hzero ▸ List.get_mem t _)
  have hlength : text.length = text'.length :=
    Nat.le_antisymm (hle h' h hnul) (hle h h' hnul')
  apply List.ext_get hlength
  intro i hi hi'
  rw [← h.1 i hi, h'.1 i hi']

end Buffer

end SmbProxy.Library
