import SmbProxy.Analysis.Url

/-!
# The default ports of the two URL functions

`butil_paste_url` prints 443 for every scheme but https, for which it prints 80: its test of
the name is inverted, and no other scheme has the port 443 (`useport_ne_defaultPort`). So a URL
pasted with port 0 is not parsed as the one without a port, unless the name of a user's scheme
has a `://` in it, behind which neither port is read (`port_behind_separator`).
-/

set_option autoImplicit false

namespace SmbProxy.Analysis

open SmbProxy.Library SmbProxy.Model SmbProxy.Interface

/-! ## Names -/

section Names

variable {users : UserSchemes} {scheme : ButilUrlScheme}

/-- A letter without its capital stays so. -/
theorem tolower_tolower (c : UInt8) : tolower (tolower c) = tolower c := by
  unfold tolower
  simp only [UInt8.le_iff_toNat_le]
  have h32 : (32 : UInt8).toNat = 32 := rfl
  have h65 : (65 : UInt8).toNat = 65 := rfl
  have h90 : (90 : UInt8).toNat = 90 := rfl
  by_cases hupper : 65 ≤ c.toNat ∧ c.toNat ≤ 90
  · have hlower : (c + 32).toNat = c.toNat + 32 := by
      rw [UInt8.toNat_add, h32]
      omega
    rw [h65, h90, if_pos hupper, hlower, if_neg (by omega)]
  · rw [h65, h90, if_neg hupper, if_neg hupper]

/-- No character becomes the NUL. -/
theorem tolower_ne_zero {c : UInt8} (h : c ≠ 0) : tolower c ≠ 0 := by
  unfold tolower
  split_ifs with hupper
  · rintro heq
    have hsum := congrArg UInt8.toNat heq
    simp only [UInt8.le_iff_toNat_le, UInt8.toNat_add, UInt8.toNat_ofNat] at hsum hupper
    omega
  · exact h

/-- A name of a scheme is a string that fits. -/
theorem butilSchemeName_fits (hstored : StoredNames users) :
    (butilSchemeName users scheme).length < maxUrlScheme ∧ 0 ∉ butilSchemeName users scheme := by
  cases scheme with
  | user n =>
      show (if users n ≠ [] then users n else ascii ['?', '?', '?', '?']).length < maxUrlScheme ∧
        0 ∉ if users n ≠ [] then users n else ascii ['?', '?', '?', '?']
      split_ifs
      · exact hstored n
      · exact ⟨by decide, by decide⟩
  | _ => exact ⟨of_decide_eq_true rfl, of_decide_eq_true rfl⟩

/-- The name that is pasted is that of the scheme, without capitals. -/
theorem pastedName_eq (hstored : StoredNames users) :
    pastedName users scheme = (butilSchemeName users scheme).map tolower := by
  unfold pastedName
  rw [List.take_of_length_le (Nat.le_sub_one_of_lt (butilSchemeName_fits hstored).1)]

/-- There is no NUL in it. -/
theorem nul_not_mem_pastedName (hstored : StoredNames users) : 0 ∉ pastedName users scheme := by
  rw [pastedName_eq hstored]
  intro hmem
  obtain ⟨c, hc, hzero⟩ := List.mem_map.mp hmem
  apply tolower_ne_zero _ hzero
  rintro rfl
  exact (butilSchemeName_fits hstored).2 hc

/-- The name is found in lower case as well. -/
theorem known_pastedName (hstored : StoredNames users)
    (hknown : butilSchemeFromName users (butilSchemeName users scheme) = some scheme) :
    Known users (pastedName users scheme) scheme := by
  rw [pastedName_eq hstored]
  constructor
  · rw [List.length_map]
    exact (butilSchemeName_fits hstored).1
  · rw [← hknown]
    apply butilSchemeFromName_congr
    unfold SameName
    rw [List.map_map]
    apply List.map_congr_left
    intro c _
    exact tolower_tolower c

/-- The test for https is inverted. -/
theorem useport_pastedName (hknown : Known users (pastedName users scheme) scheme) :
    useport (pastedName users scheme) 0 = if scheme = .https then 80 else 443 := by
  unfold useport
  rw [if_pos rfl]
  by_cases hscheme : scheme = .https
  · subst hscheme
    rfl
  · rw [if_neg hscheme, if_pos]
    intro hsame
    apply hscheme
    have hfound := hknown.2
    rw [butilSchemeFromName_congr ((strcasecmp_eq_zero _ _).mp hsame)] at hfound
    exact (Option.some.inj hfound).symm

/-- **The port that is pasted for 0 is not the default of the scheme**, where the name is known: the
test is the other way round. -/
theorem useport_ne_defaultPort (hknown : Known users (pastedName users scheme) scheme) :
    useport (pastedName users scheme) 0 ≠ defaultPort scheme := by
  rw [useport_pastedName hknown]
  cases scheme with
  | user n => simp [defaultPort]
  | _ => decide

end Names

/-! ## The port of a URL with one and of one without -/

section Ports

variable {users : UserSchemes} {scheme : ButilUrlScheme} {host path : List UInt8}

/-- The text that is pasted for port 0, part by part. -/
theorem pastedUrl_parts (users : UserSchemes) (scheme : ButilUrlScheme) (host path : List UInt8) :
    pastedUrl users scheme host 0 path =
      pastedName users scheme ++ ascii [':', '/', '/'] ++
        (host ++
          58 :: (decimal (useport (pastedName users scheme) 0).toNat ++ withSlash path)) := by
  unfold pastedUrl
  simp only [List.append_assoc, slash_append_path]
  rfl

/-- The digits of a port are read to their end. -/
theorem portRead_decimal (port : UInt16) : PortRead (decimal port.toNat) := by
  have hlt : port.toNat < 10 ^ 5 := Nat.lt_trans port.toNat_lt (by decide)
  exact portRead_of_digits decimal_ne_nil (length_decimal_le (by decide) hlt) isdigit_decimal

/-- There is no slash in digits. -/
theorem slash_not_mem_decimal (n : ℕ) : 47 ∉ decimal n := fun hmem => by
  cases isdigit_decimal 47 hmem

/-- The port that is printed is parsed. -/
theorem port_pasted (hknown : Known users (pastedName users scheme) scheme)
    (hfile : scheme ≠ .file) (hsep : ¬ ascii [':', '/', '/'] <:+: pastedName users scheme)
    (hhost : ∀ c ∈ host, isHost c = true) (host' path' schemestr : Buffer) {nhost : ℕ} (npath : ℕ)
    (hnhost : host.length < nhost) :
    (butilParseUrl users (some (pastedUrl users scheme host 0 path)) (some host') nhost
      (some path') npath schemestr).port = useport (pastedName users scheme) 0 := by
  obtain ⟨hhostOf, hportOf, -⟩ :=
    parts_of_some hhost (slash_not_mem_decimal (useport (pastedName users scheme) 0).toNat)
      (Or.inr (head_withSlash path))
  have hread : ∀ text ∈ some (decimal (useport (pastedName users scheme) 0).toNat),
      PortRead text := by
    rintro _ ⟨⟩
    exact portRead_decimal _
  have hstrtoul : strtoul (decimal (useport (pastedName users scheme) 0).toNat ++ []) =
      ((useport (pastedName users scheme) 0).toNat, []) :=
    strtoul_decimal (Nat.lt_trans (UInt16.toNat_lt _) (by decide)) (fun c hc => by cases hc)
  rw [List.append_nil] at hstrtoul
  rw [pastedUrl_parts, butilParseUrl_of_host users _ _ _ _ _ (.named _ hsep) hknown hfile,
    parseHost_of_read _ _ _ _ (fun hlong => Nat.not_le.mpr hnhost (hhostOf ▸ hlong.1))
      (hportOf ▸ hread),
    (parsePath_keeps _ _ _).2.2.1]
  unfold portRead
  simp only [hportOf, hstrtoul, UInt16.ofNat_toNat]

/-- Without one it is that of the scheme. -/
theorem port_portless (hknown : Known users (pastedName users scheme) scheme)
    (hfile : scheme ≠ .file) (hsep : ¬ ascii [':', '/', '/'] <:+: pastedName users scheme)
    (hhost : ∀ c ∈ host, isHost c = true) (host' path' schemestr : Buffer) {nhost : ℕ} (npath : ℕ)
    (hnhost : host.length < nhost) :
    (butilParseUrl users (some (portless users scheme host path)) (some host') nhost
      (some path') npath schemestr).port = defaultPort scheme := by
  obtain ⟨hhostOf, hportOf, -⟩ := parts_of_none hhost (Or.inr (head_withSlash path))
  have hread : ∀ text ∈ (none : Option (List UInt8)), PortRead text := by
    rintro _ ⟨⟩
  unfold portless
  rw [butilParseUrl_of_host users _ _ _ _ _ (.named _ hsep) hknown hfile,
    parseHost_of_read _ _ _ _ (fun hlong => Nat.not_le.mpr hnhost (hhostOf ▸ hlong.1))
      (hportOf ▸ hread),
    (parsePath_keeps _ _ _).2.2.1]
  unfold portRead
  simp only [hportOf]

/-- What comes behind a second `://` has no influence on the port. -/
theorem port_behind_separator {name : List UInt8} (hname : ¬ ascii [':', '/', '/'] <:+: name)
    (before rest rest' : List UInt8) (host' : Option Buffer) (nhost : ℕ) (path' : Option Buffer)
    (npath : ℕ) (schemestr : Buffer) :
    (butilParseUrl users (some (name ++ ascii [':', '/', '/'] ++ (before ++ 58 :: 47 :: rest)))
        host' nhost path' npath schemestr).port =
      (butilParseUrl users (some (name ++ ascii [':', '/', '/'] ++ (before ++ 58 :: 47 :: rest')))
        host' nhost path' npath schemestr).port := by
  have hhostOf : ∀ rest, hostOf (before ++ 58 :: 47 :: rest) = hostOf before := fun rest =>
    takeWhile_append_cons rfl before _
  have hportOf : ∀ rest, portOf (before ++ 58 :: 47 :: rest) = portOf (before ++ [58, 47]) := by
    intro rest
    unfold portOf
    rw [dropWhile_append_cons rfl, dropWhile_append_cons rfl]
    cases before.dropWhile isHost with
    | nil => simp
    | cons c tail =>
        have hcut : ∀ rest : List UInt8,
            (tail ++ 58 :: 47 :: rest).takeWhile (fun c => decide (c ≠ 47)) =
              (tail ++ [58]).takeWhile fun c => decide (c ≠ 47) := by
          intro rest
          have happend : tail ++ 58 :: 47 :: rest = tail ++ [58] ++ 47 :: rest := by simp
          rw [happend]
          exact takeWhile_append_cons (by simp) (tail ++ [58]) rest
        simp only [List.cons_append, hcut]
  rw [butilParseUrl_of_split users _ _ _ _ _ (.named _ hname),
    butilParseUrl_of_split users _ _ _ _ _ (.named _ hname)]
  split_ifs
  · rfl
  · cases butilSchemeFromName users name with
    | none => rfl
    | some scheme =>
        dsimp only
        split_ifs
        · rw [(parsePath_keeps _ _ _).2.2.1, (parsePath_keeps _ _ _).2.2.1]
        · apply parseHost_port
          · rw [hhostOf, hhostOf]
          · exact (hportOf rest).trans (hportOf rest').symm

/-- There is no NUL in the text. -/
theorem nul_not_mem_pastedUrl (hstored : StoredNames users) (hhost : 0 ∉ host) (hpath : 0 ∉ path) :
    0 ∉ pastedUrl users scheme host 0 path := by
  have hdecimal : 0 ∉ decimal (useport (pastedName users scheme) 0).toNat := fun hmem => by
    cases isdigit_decimal 0 hmem
  have hslash : 0 ∉ withSlash path := by
    unfold withSlash
    split_ifs
    · exact hpath
    · exact List.not_mem_cons_of_ne_of_not_mem (by decide) hpath
  rw [pastedUrl_parts]
  simp only [List.mem_append, List.mem_cons, not_or]
  exact ⟨⟨nul_not_mem_pastedName hstored, by decide⟩, hhost, by decide, hdecimal, hslash⟩

/-- Where the port is read it is the wrong one. -/
theorem not_sameDefaultPort (hstored : StoredNames users) (hfile : scheme ≠ .file)
    (hknown : butilSchemeFromName users (butilSchemeName users scheme) = some scheme)
    (hhost : ∀ c ∈ host, c ≠ 0 ∧ c ≠ 58 ∧ c ≠ 47) (hpath : 0 ∉ path)
    (hsep : ¬ ascii [':', '/', '/'] <:+: pastedName users scheme)
    (hint : (pastedUrl users scheme host 0 path).length < 2 ^ 31) :
    ¬ SameDefaultPort users scheme host path := by
  intro hsame
  have hplain : ∀ c ∈ host, isHost c = true := fun c hc => decide_eq_true (hhost c hc).2
  have hnul : 0 ∉ host := fun hmem => (hhost 0 hmem).1 rfl
  have hname := known_pastedName hstored hknown
  have hroom : (pastedUrl users scheme host 0 path).length + 1 < 2 ^ 64 := by omega
  obtain ⟨url', hpaste, hholds⟩ :=
    butilPasteUrl_succeeds ⟨fun _ => 0, []⟩ (Nat.lt_succ_self _) hint
  have hports := hsame _ _ url' _ hroom hpaste hholds (nul_not_mem_pastedUrl hstored hnul hpath)
    (some ⟨fun _ => 0, []⟩) (host.length + 1) (some ⟨fun _ => 0, []⟩) 0 ⟨fun _ => 0, []⟩
  rw [port_pasted hname hfile hsep hplain _ _ _ _ (Nat.lt_succ_self _),
    port_portless hname hfile hsep hplain _ _ _ _ (Nat.lt_succ_self _)] at hports
  exact useport_ne_defaultPort hname hports

/-- **No port means the same port** to both functions only where none is read: if the name of
the scheme has a `://` in it, or the URL is too long to be pasted. -/
theorem same_default_port_iff (hstored : StoredNames users) (hfile : scheme ≠ .file)
    (hknown : butilSchemeFromName users (butilSchemeName users scheme) = some scheme)
    (hhost : ∀ c ∈ host, c ≠ 0 ∧ c ≠ 58 ∧ c ≠ 47) (hpath : 0 ∉ path) :
    SameDefaultPort users scheme host path ↔
      ascii [':', '/', '/'] <:+: pastedName users scheme ∨
        2 ^ 31 ≤ (pastedUrl users scheme host 0 path).length := by
  have hnul : 0 ∉ host := fun hmem => (hhost 0 hmem).1 rfl
  constructor
  · intro hsame
    by_contra hnone
    rw [not_or, not_le] at hnone
    exact not_sameDefaultPort hstored hfile hknown hhost hpath hnone.1 hnone.2 hsame
  · intro hcase url nurl url' text hnurl hpaste hholds htext host' nhost path' npath schemestr
    have hshort : ¬ (nurl ≤ (pastedUrl users scheme host 0 path).length ∨
        2 ^ 31 ≤ (pastedUrl users scheme host 0 path).length) := by
      intro hlong
      have hfailed := butilPasteUrl_fails url hnurl hlong
      rw [hpaste] at hfailed
      cases hfailed
    rw [not_or, not_le, not_le] at hshort
    cases hcase with
    | inr hlong => exact absurd hlong (not_le.mpr hshort.2)
    | inl hsep =>
        -- the text that has been printed is the one in the buffer
        obtain ⟨url'', hpaste', hholds'⟩ := butilPasteUrl_succeeds url hshort.1 hshort.2
        rw [hpaste] at hpaste'
        cases hpaste'
        obtain rfl := hholds.unique hholds' htext (nul_not_mem_pastedUrl hstored hnul hpath)
        obtain ⟨name, rest, heq, hname⟩ := named_of_infix hsep
        have hbehind : ∀ tail : List UInt8, name ++ ascii [':', '/', '/'] ++ rest ++
            ascii [':', '/', '/'] ++ tail =
            name ++ ascii [':', '/', '/'] ++ (rest ++ 58 :: 47 :: (47 :: tail)) := by
          intro tail
          simp [ascii]
        unfold portless
        rw [pastedUrl_parts, heq, hbehind, hbehind]
        exact port_behind_separator hname _ _ _ _ _ _ _ _

/-- A user's scheme with the name `a://b`. -/
theorem same_default_port_named :
    SameDefaultPort (fun _ => ascii ['a', ':', '/', '/', 'b']) (.user 0) (ascii ['h']) [] := by
  have hname : pastedName (fun _ => ascii ['a', ':', '/', '/', 'b']) (.user 0) =
      ascii ['a'] ++ ascii [':', '/', '/'] ++ ascii ['b'] := rfl
  exact (same_default_port_iff (fun _ => ⟨by decide, by simp [ascii]⟩) (by simp) rfl
    (by simp [ascii]) (by simp)).mpr (Or.inl ⟨_, _, hname.symm⟩)

/-- `http` with the host `h`. -/
theorem not_same_default_port_http : ¬ SameDefaultPort (fun _ => []) .http (ascii ['h']) [] := by
  apply not_sameDefaultPort (fun _ => ⟨by decide, by simp⟩) (by simp) rfl (by simp [ascii])
    (by simp)
  · decide
  · rw [pastedUrl_parts]
    decide

end Ports

end SmbProxy.Analysis
