import SmbProxy.Analysis.UrlOutcomes

/-!
# The port that is accepted

`butil_parse_url` leaves the reading of a port to `strtoul` and looks at the number of its
characters alone. So blanks and a sign are read over, no digits at all are the port 0, and
what is larger than a port is cut to 16 bits (`MisreadPort`). Every other text that is
accepted is the port it says (`plainPort_of_read`).
-/

set_option autoImplicit false

namespace SmbProxy.Analysis

open SmbProxy.Library SmbProxy.Model SmbProxy.Interface

section Texts

variable {text blanks sign digits : List UInt8}

/-- Neither a blank nor a sign is a digit. -/
theorem not_isdigit_of_isNumber (h : IsNumber blanks sign digits text) :
    ∀ c ∈ blanks ++ sign, isdigit c = false := by
  intro c hc
  cases List.mem_append.mp hc with
  | inl hblank =>
      by_contra hdigit
      have hspace := isspace_eq_false_of_isdigit (Bool.eq_true_of_not_eq_false hdigit)
      rw [h.blank c hblank] at hspace
      cases hspace
  | inr hsign =>
      rcases h.sign with rfl | rfl | rfl
      · cases hsign
      · rw [List.mem_singleton.mp hsign]
        rfl
      · rw [List.mem_singleton.mp hsign]
        rfl

/-- A number without blanks and sign is its digits. -/
theorem text_of_isNumber (h : IsNumber blanks sign digits text) (hbare : blanks ++ sign = []) :
    text = digits := by
  rw [h.text, ← List.append_assoc, hbare]
  rfl

/-- What is read and not misread is a port, and `strtoul` has its value. -/
theorem plainPort_of_read (h : PortRead text) (hmisread : ¬ MisreadPort text) :
    PlainPort text ∧ (strtoul text).1 = digitsValue text := by
  obtain ⟨hshort, hempty | ⟨blanks, sign, digits, hnumber⟩⟩ := h
  · exact absurd (Or.inl hempty) hmisread
  · have hbare : blanks ++ sign = [] := by
      by_contra hne
      exact hmisread (Or.inr ⟨blanks, sign, digits, hnumber, hshort, Or.inl hne⟩)
    have hvalue : digitsValue digits ≤ 65535 := by
      by_contra hlarge
      exact hmisread (Or.inr ⟨blanks, sign, digits, hnumber, hshort, Or.inr (not_le.mp hlarge)⟩)
    obtain rfl := text_of_isNumber hnumber hbare
    refine ⟨⟨hnumber.digits_ne, hshort, hnumber.digit, hvalue⟩, ?_⟩
    have hlt : digitsValue text < 2 ^ 64 := by omega
    have hread : strtoul (text ++ []) = (digitsValue text, []) :=
      strtoul_digits hnumber.digits_ne hnumber.digit hlt fun c hc => by cases hc
    rw [List.append_nil] at hread
    rw [hread]

/-- A port that is misread is read to its end. -/
theorem portRead_of_misread (h : MisreadPort text) : PortRead text := by
  rcases h with rfl | ⟨blanks, sign, digits, hnumber, hshort, -⟩
  · exact ⟨Nat.zero_le _, Or.inl rfl⟩
  · exact ⟨hshort, Or.inr ⟨blanks, sign, digits, hnumber⟩⟩

/-- It is no plain number. -/
theorem not_plainPort_of_misread (h : MisreadPort text) : ¬ PlainPort text := by
  intro hplain
  rcases h with hempty | ⟨blanks, sign, digits, hnumber, -, hwrong⟩
  · exact hplain.ne hempty
  · by_cases hbare : blanks ++ sign = []
    · obtain rfl := text_of_isNumber hnumber hbare
      cases hwrong with
      | inl hne => exact hne hbare
      | inr hlarge => exact absurd hplain.value (not_le.mpr hlarge)
    · obtain ⟨c, tail, hc⟩ := List.exists_cons_of_ne_nil hbare
      have hmem : c ∈ blanks ++ sign := hc ▸ List.mem_cons_self
      have hdigit := hplain.digits c (by
        rw [hnumber.text, ← List.append_assoc]
        exact List.mem_append_left digits hmem)
      rw [not_isdigit_of_isNumber hnumber c hmem] at hdigit
      cases hdigit

end Texts

section Calls

variable {users : UserSchemes} {url name rest text : List UInt8} {scheme : ButilUrlScheme}

/-- A call that succeeds on a string with a port has read the text of it. -/
theorem portRead_of_result {host : Option Buffer} {nhost : ℕ} {path : Option Buffer} {npath : ℕ}
    {schemestr : Buffer} {out : ParsedUrl}
    (houtcome : ParseOutcome users host nhost path npath schemestr name rest out)
    (hport : portOf rest = some text) (hresult : out.result = 0) (hfile : out.scheme ≠ .file) :
    PortRead text ∧ out.port = UInt16.ofNat (strtoul text).1 := by
  obtain ⟨copied, ps, rfl, -, -, -, -, hhost⟩ :=
    path_reached_of_result users host nhost path npath schemestr houtcome hresult
  rw [(parsePath_keeps npath copied ps).1] at hfile
  obtain ⟨hread, hstored⟩ := hhost hfile
  refine ⟨hread text hport, ?_⟩
  rw [(parsePath_keeps npath copied ps).2.2.1, hstored]
  simp only [portRead, hport]

/-- With room enough a text that is misread is accepted. -/
theorem not_portAsWritten_of_misread (hsplit : SplitUrl url name rest)
    (hknown : Known users name scheme) (hfile : scheme ≠ .file) (hport : portOf rest = some text)
    (hmisread : MisreadPort text) (host path schemestr : Buffer) {nhost npath : ℕ}
    (hnhost : (hostOf rest).length < nhost) (hnpath : (pathOf rest).length < npath) :
    ¬ PortAsWritten url
      (butilParseUrl users (some url) (some host) nhost (some path) npath schemestr) := by
  intro hwritten
  have hread : ∀ text' ∈ portOf rest, PortRead text' := by
    intro text' htext'
    rw [hport] at htext'
    cases htext'
    exact portRead_of_misread hmisread
  have hparse := butilParseUrl_of_host users (some host) nhost (some path) npath schemestr hsplit
    hknown hfile
  rw [parseHost_of_read _ _ _ _ (fun h => Nat.not_le.mpr hnhost h.1) hread,
    parsePath_of_fits fun h => Nat.not_le.mpr hnpath h.1] at hparse
  have hplain := hwritten name rest text hsplit hport (by rw [hparse]) (by rw [hparse]; exact hfile)
  exact not_plainPort_of_misread hmisread hplain.1

/-- **The accepted port is the one that was written** iff the string has none that is
misread. -/
theorem port_as_written_iff (users : UserSchemes) (url : List UInt8) :
    (∀ host nhost path npath schemestr,
      PortAsWritten url (butilParseUrl users (some url) host nhost path npath schemestr)) ↔
      ¬ ∃ name rest scheme text, SplitUrl url name rest ∧ Known users name scheme ∧ scheme ≠ .file ∧
        portOf rest = some text ∧ MisreadPort text := by
  constructor
  · rintro hwritten ⟨name, rest, scheme, text, hsplit, hknown, hfile, hport, hmisread⟩
    exact not_portAsWritten_of_misread hsplit hknown hfile hport hmisread ⟨fun _ => 0, []⟩
      ⟨fun _ => 0, []⟩ ⟨fun _ => 0, []⟩ (Nat.lt_succ_self _) (Nat.lt_succ_self _)
      (hwritten _ _ _ _ _)
  · intro hnone host nhost path npath schemestr name rest text hsplit hport hresult hfile
    have houtcome := butilParseUrl_outcome users host nhost path npath schemestr hsplit
    obtain ⟨hread, hstored⟩ := portRead_of_result houtcome hport hresult hfile
    have hknown := known_of_result _ _ _ _ _ _ houtcome hresult
    have hmisread : ¬ MisreadPort text := fun hmisread =>
      hnone ⟨name, rest, _, text, hsplit, hknown, hfile, hport, hmisread⟩
    obtain ⟨hplain, hvalue⟩ := plainPort_of_read hread hmisread
    have hlt := hplain.value
    refine ⟨hplain, ?_⟩
    rw [hstored, hvalue, UInt16.toNat_ofNat']
    omega

/-- The port of `http://h:99999/` is 34463. -/
theorem not_port_as_written_large :
    ¬ PortAsWritten
      (ascii ['h', 't', 't', 'p', ':', '/', '/', 'h', ':', '9', '9', '9', '9', '9', '/'])
      (butilParseUrl (fun _ => [])
        (some (ascii ['h', 't', 't', 'p', ':', '/', '/', 'h', ':', '9', '9', '9', '9', '9', '/']))
        (some ⟨fun _ => 0, []⟩) 64 (some ⟨fun _ => 0, []⟩) 64 ⟨fun _ => 0, []⟩) := by
  apply not_portAsWritten_of_misread
    (split_http (ascii ['h', ':', '9', '9', '9', '9', '9', '/'])) (known_http _) (by simp) rfl
  · refine Or.inr ⟨[], [], ascii ['9', '9', '9', '9', '9'], ?_, by simp [maxPortspec], ?_⟩
    · exact ⟨rfl, by simp, by simp, by simp [ascii], by simp [ascii, isdigit]⟩
    · exact Or.inr (by simp [ascii, digitsValue])
  · decide
  · decide

end Calls

end SmbProxy.Analysis
