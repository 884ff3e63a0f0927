import SmbProxy.Library.CInt
import SmbProxy.Library.CString

/-!
# Scanning with a format

`sscanf` for formats of `%ws`, `%d`, characters and white space. What it stores is the list of
the fields it has converted: each conversion stores the next one, and none stores anything
once the scan has stopped (`kinds_prefix`). A number that no `int` holds is converted as
`strtol` and a cast do it.
-/

set_option autoImplicit false

namespace SmbProxy.Library

/-- A directive: `%` with a width and `s`, `%d`, a character, or white space. -/
inductive Directive
  | string (width : ℕ)
  | int
  | literal (c : UInt8)
  | blank

inductive Field
  | text (s : List UInt8)
  | number (n : ℤ)
  deriving DecidableEq

/-- The fields that have been converted, and whether the scan has stopped at the end of the
input. -/
structure Scanned where
  fields : List Field
  inputEnded : Bool

def Scanned.cons (field : Field) (r : Scanned) : Scanned := { r with fields := field :: r.fields }

/-- What `%d` reads behind white space: the number, and the text behind it. -/
def scanInt (s : List UInt8) : Option (ℤ × List UInt8) :=
  let signed := if s.head? = some 43 ∨ s.head? = some 45 then s.tail else s
  let digits := signed.takeWhile isdigit
  let value : ℤ := if s.head? = some 45 then -digitsValue digits else digitsValue digits
  if digits = [] then none
  else some (toInt32 (max (-2 ^ 63) (min value (2 ^ 63 - 1))), signed.dropWhile isdigit)

/-- The scan of a text by a format. -/
def scan : List Directive → List UInt8 → Scanned
  | [], _ => ⟨[], false⟩
  | .blank :: format, s => scan format (s.dropWhile isspace)
  | .literal c :: format, s => if s.head? = some c then scan format s.tail else ⟨[], s = []⟩
  | .string width :: format, s =>
    let text := s.dropWhile isspace
    let word := (text.take width).takeWhile fun c => !isspace c
    if word = [] then ⟨[], text = []⟩
    else (scan format (text.drop word.length)).cons (.text word)
  | .int :: format, s =>
    let text := s.dropWhile isspace
    match scanInt text with
    | some (n, rest) => (scan format rest).cons (.number n)
    | none => ⟨[], text = []⟩

/-- What `sscanf` returns: `EOF`, or the number of conversions. -/
def Scanned.result (r : Scanned) : ℤ :=
  if r.fields = [] ∧ r.inputEnded = true then -1 else r.fields.length

/-- The number that the `k`-th conversion has stored, if it has. -/
def Scanned.number (r : Scanned) (k : ℕ) : Option ℤ :=
  match r.fields[k]? with
  | some (.number n) => some n
  | _ => none

/-- The text that the `k`-th conversion has stored, if it has. -/
def Scanned.text (r : Scanned) (k : ℕ) : Option (List UInt8) :=
  match r.fields[k]? with
  | some (.text s) => some s
  | _ => none

/-! ## What is converted -/

/-- Whether a field is a number. -/
def Field.isNumber : Field → Bool
  | .number _ => true
  | .text _ => false

/-- What the conversions of a format store: numbers or texts. -/
def conversions : List Directive → List Bool
  | [] => []
  | .string _ :: format => false :: conversions format
  | .int :: format => true :: conversions format
  | .literal _ :: format => conversions format
  | .blank :: format => conversions format

/-- The fields are those of the first conversions. -/
theorem kinds_prefix (format : List Directive) (s : List UInt8) :
    (scan format s).fields.map Field.isNumber <+: conversions format := by
  induction format generalizing s with
  | nil => exact List.prefix_rfl
  | cons directive format ih =>
      cases directive with
      | blank => exact ih _
      | literal c =>
          rw [scan]
          split_ifs
          · exact ih _
          · exact List.nil_prefix
      | string width =>
          rw [scan]
          split_ifs
          · exact List.nil_prefix
          · exact List.cons_prefix_cons.mpr ⟨rfl, ih _⟩
      | int =>
          rw [scan]
          cases scanInt (s.dropWhile isspace) with
          | none => exact List.nil_prefix
          | some found => exact List.cons_prefix_cons.mpr ⟨rfl, ih _⟩

section Stored

variable {format : List Directive} {s : List UInt8} {k : ℕ}

/-- A field that has been converted is of the kind that its conversion stores. -/
theorem exists_field (hk : k < (scan format s).fields.length) :
    ∃ field, (scan format s).fields[k]? = some field ∧
      (conversions format)[k]? = some field.isNumber := by
  have hprefix := kinds_prefix format s
  have hlt : k < ((scan format s).fields.map Field.isNumber).length := by
    rw [List.length_map]
    exact hk
  refine ⟨_, List.getElem?_eq_getElem hk, ?_⟩
  rw [(List.prefix_iff_getElem?.mp hprefix) k hlt, List.getElem_map]

/-- A number has been read if its field has. -/
theorem number_isSome (hk : (conversions format)[k]? = some true) :
    ((scan format s).number k).isSome ↔ k < (scan format s).fields.length := by
  unfold Scanned.number
  by_cases hlt : k < (scan format s).fields.length
  · obtain ⟨field, hfield, hkind⟩ := exists_field hlt
    rw [hk] at hkind
    rw [hfield]
    cases field with
    | number n => exact iff_of_true rfl hlt
    | text t => cases hkind
  · rw [List.getElem?_eq_none (not_lt.mp hlt)]
    exact iff_of_false Bool.false_ne_true hlt

/-- A text has been read if its field has. -/
theorem text_isSome (hk : (conversions format)[k]? = some false) :
    ((scan format s).text k).isSome ↔ k < (scan format s).fields.length := by
  unfold Scanned.text
  by_cases hlt : k < (scan format s).fields.length
  · obtain ⟨field, hfield, hkind⟩ := exists_field hlt
    rw [hk] at hkind
    rw [hfield]
    cases field with
    | number n => cases hkind
    | text t => exact iff_of_true rfl hlt
  · rw [List.getElem?_eq_none (not_lt.mp hlt)]
    exact iff_of_false Bool.false_ne_true hlt

end Stored

/-- A leading word is not read only at the end of the input. -/
theorem inputEnded_of_fields_nil {width : ℕ} (hwidth : 0 < width) {format : List Directive}
    {s : List UInt8} (h : (scan (.string width :: format) s).fields = []) :
    (scan (.string width :: format) s).inputEnded = true := by
  rw [scan] at h ⊢
  split_ifs at h ⊢ with hword
  · apply decide_eq_true
    by_contra htext
    obtain ⟨c, tail, hcons⟩ := List.exists_cons_of_ne_nil htext
    have hc : isspace c = false := by
      have hhead := List.head?_dropWhile_not isspace s
      rw [hcons] at hhead
      simpa using hhead
    obtain ⟨k, rfl⟩ := Nat.exists_eq_succ_of_ne_zero hwidth.ne'
    rw [hcons, List.take_succ_cons, List.takeWhile_cons_of_pos (by rw [hc]; rfl)] at hword
    cases hword
  · cases h

/-! ## Texts that match -/

section Match

variable {format : List Directive} {rest : List UInt8}

/-- A text that does not begin with a space has none to be skipped. -/
theorem dropWhile_isspace {c : UInt8} (h : isspace c = false) (rest : List UInt8) :
    (c :: rest).dropWhile isspace = c :: rest := by
  simp [h]

/-- A character of the format is read where the text has it. -/
theorem scan_literal (c : UInt8) (format : List Directive) (rest : List UInt8) :
    scan (.literal c :: format) (c :: rest) = scan format rest := by
  rw [scan, List.head?_cons, if_pos rfl, List.tail_cons]

/-- White space in the format goes over a blank before what is none. -/
theorem scan_blank (h : ∀ c ∈ rest.head?, isspace c = false) :
    scan (.blank :: format) (32 :: rest) = scan format rest := by
  have hdrop : (32 :: rest).dropWhile isspace = rest.dropWhile isspace := rfl
  rw [scan, hdrop]
  cases rest with
  | nil => rfl
  | cons c rest => rw [dropWhile_isspace (h c rfl)]

/-- A word as long as its width. -/
theorem scan_string {word : List UInt8} {width : ℕ} (hlength : word.length = width)
    (hwidth : 0 < width) (hword : ∀ c ∈ word, isspace c = false) (format : List Directive)
    (rest : List UInt8) :
    scan (.string width :: format) (word ++ rest) = (scan format rest).cons (.text word) := by
  subst hlength
  have hne := List.length_pos_iff.mp hwidth
  obtain ⟨c, tail, rfl⟩ := List.exists_cons_of_ne_nil hne
  have htext : (c :: tail ++ rest).dropWhile isspace = c :: tail ++ rest :=
    dropWhile_isspace (hword c List.mem_cons_self) (tail ++ rest)
  have hall : (c :: tail).takeWhile (fun c => !isspace c) = c :: tail := by
    apply List.takeWhile_eq_self_iff.mpr
    intro d hd
    rw [hword d hd]
    rfl
  rw [scan, htext, List.take_left, hall, if_neg hne, List.drop_left]

/-- Digits before what is none. -/
theorem scan_digits {digits : List UInt8} (hne : digits ≠ [])
    (hdigits : ∀ c ∈ digits, isdigit c = true) (hvalue : digitsValue digits < 2 ^ 31)
    (hrest : ∀ c ∈ rest.head?, isdigit c = false) (format : List Directive) :
    scan (.int :: format) (digits ++ rest) =
      (scan format rest).cons (.number (digitsValue digits)) := by
  obtain ⟨c, tail, rfl⟩ := List.exists_cons_of_ne_nil hne
  have hc := hdigits c List.mem_cons_self
  have htext : (c :: tail ++ rest).dropWhile isspace = c :: tail ++ rest :=
    dropWhile_isspace (isspace_eq_false_of_isdigit hc) (tail ++ rest)
  have hplus : c ≠ 43 := by
    rintro rfl
    cases hc
  have hminus : c ≠ 45 := by
    rintro rfl
    cases hc
  have hhead : (c :: tail ++ rest).head? = some c := rfl
  have hint : scanInt (c :: tail ++ rest) = some ((digitsValue (c :: tail) : ℤ), rest) := by
    unfold scanInt
    simp only [hhead, Option.some.injEq, hplus, hminus, or_self, if_false,
      takeWhile_append_stop hdigits hrest, dropWhile_append_stop hdigits hrest, hne]
    rw [min_eq_left (by omega), max_eq_right (by omega), toInt32_of_range (by omega) (by omega)]
  rw [scan, htext, hint]

end Match

end SmbProxy.Library
