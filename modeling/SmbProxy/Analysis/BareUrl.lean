import SmbProxy.Analysis.UrlOutcomes

/-!
# URLs without a scheme

A string without `//` is parsed as it is behind `http://` (`sameParse_of_noSlashes`). But the
search for the separator does not end at the path: a `//` or `://` in it is taken for the one
behind a scheme, so that only what follows it is parsed. The path that comes out, if one does,
is then shorter than the one that was written (`rest_shorter`).
-/

set_option autoImplicit false

namespace SmbProxy.Analysis

open SmbProxy.Library SmbProxy.Model SmbProxy.Interface

section Lists

variable {chunk path before rest : List UInt8}

/-- What follows a `/` begins in the path if nothing before the path has one. -/
theorem exists_of_append_slash (h : chunk ++ path = before ++ 47 :: rest) (hchunk : 47 ∉ chunk) :
    ∃ start, path = start ++ 47 :: rest := by
  rcases List.append_eq_append_iff.mp h with ⟨start, -, hpath⟩ | ⟨tail, hchunk', hrest⟩
  · exact ⟨start, hpath⟩
  · cases tail with
    | nil => exact ⟨[], hrest.symm⟩
    | cons c tail =>
        have hc : c = 47 := (List.cons.inj hrest).1.symm
        apply absurd _ hchunk
        rw [hchunk', hc]
        exact List.mem_append_right before List.mem_cons_self

/-- What is behind a slash of the path is shorter than the path. -/
theorem rest_shorter (h : chunk ++ path = before ++ 47 :: rest) (hchunk : 47 ∉ chunk) :
    rest.length < path.length := by
  obtain ⟨start, rfl⟩ := exists_of_append_slash h hchunk
  simp only [List.length_append, List.length_cons]
  omega

/-- Two slashes behind a part without any are in the path. -/
theorem slashes_in_path (h : ascii ['/', '/'] <:+: chunk ++ path) (hchunk : 47 ∉ chunk) :
    ascii ['/', '/'] <:+: path := by
  obtain ⟨before, rest, hsplit⟩ := h
  have hcons : chunk ++ path = before ++ 47 :: (47 :: rest) := by
    rw [← hsplit]
    simp [ascii]
  obtain ⟨start, rfl⟩ := exists_of_append_slash hcons hchunk
  exact ⟨start, rest, by simp [ascii]⟩

end Lists

section Texts

variable (users : UserSchemes) (u : BareText)

/-- The host has characters of a host only. -/
theorem isHost_bare : ∀ c ∈ u.host, isHost c = true := fun c hc =>
  decide_eq_true (u.host_plain c hc).2

/-- Before the path there are the host, a `:` and digits. -/
theorem not_mem_bare {c : UInt8} (hhost : c ∉ u.host) (hcolon : c ≠ 58)
    (hdigit : isdigit c = false) : c ∉ u.host ++ u.portText := by
  intro hmem
  cases List.mem_append.mp hmem with
  | inl hmem => exact hhost hmem
  | inr hmem =>
      unfold BareText.portText at hmem
      cases hport : u.port with
      | none =>
          rw [hport] at hmem
          cases hmem
      | some digits =>
          rw [hport] at hmem
          cases List.mem_cons.mp hmem with
          | inl heq => exact hcolon heq
          | inr hmem =>
              rw [(u.port_digits digits hport).2.2 c hmem] at hdigit
              cases hdigit

/-- There is no slash in front of the path. -/
theorem slash_not_mem_bare : 47 ∉ u.host ++ u.portText :=
  not_mem_bare u (fun hmem => (u.host_plain 47 hmem).2.2 rfl) (by simp) rfl

/-- There is no NUL in the text. -/
theorem nul_not_mem_bare : 0 ∉ u.text := by
  intro hmem
  cases List.mem_append.mp hmem with
  | inl hmem => exact not_mem_bare u (fun hmem => (u.host_plain 0 hmem).1 rfl) (by simp) rfl hmem
  | inr hmem => exact u.path_nul hmem

/-- The parts of the text are found in it. -/
theorem parts_of_bare :
    hostOf u.text = u.host ∧ portOf u.text = u.port ∧ pathOf u.text = u.path := by
  have hdigits : ∀ digits ∈ u.port, 47 ∉ digits := by
    intro digits hport hmem
    cases (u.port_digits digits hport).2.2 47 hmem
  exact parts_of_text (isHost_bare u) hdigits u.path_slash

/-- The port is read to its end. -/
theorem portRead_bare : ∀ text ∈ u.port, PortRead text := by
  intro digits hport
  obtain ⟨hne, hlength, hdigits⟩ := u.port_digits digits hport
  exact portRead_of_digits hne hlength hdigits

/-- Without two slashes in its path, the text is parsed as with `http://` in front. -/
theorem sameParse_of_noSlashes (h : ¬ ascii ['/', '/'] <:+: u.path) : MeansHttp users u.text := by
  have hbare : ¬ ascii ['/', '/'] <:+: u.text := fun hslashes =>
    h (slashes_in_path hslashes (slash_not_mem_bare u))
  intro host nhost path npath schemestr
  rw [butilParseUrl_of_split users host nhost path npath schemestr (.bare hbare),
    butilParseUrl_of_split users host nhost path npath schemestr (split_http u.text)]
  exact ⟨rfl, rfl, fun _ _ => Iff.rfl, rfl, fun _ _ => Iff.rfl⟩

/-- Behind `http://` the text is accepted with its path, if there is room for it. -/
theorem path_behind_http (hne : u.path ≠ []) (host path schemestr : Buffer) {nhost npath : ℕ}
    (hnhost : u.host.length < nhost) (hnpath : u.path.length < npath) :
    ∃ out buffer, butilParseUrl users
        (some (ascii ['h', 't', 't', 'p', ':', '/', '/'] ++ u.text)) (some host) nhost (some path)
        npath schemestr = out ∧
      out.result = 0 ∧ out.path = some buffer ∧ buffer.Holds u.path := by
  obtain ⟨hhost, hport, hpath⟩ := parts_of_bare u
  have hcopied : copiedPath u.path = u.path := if_neg hne
  have hparse := butilParseUrl_of_host users (some host) nhost (some path) npath schemestr
    (split_http u.text) (known_http users) (by simp)
  rw [parseHost_of_read _ _ _ _ (fun hlong => Nat.not_le.mpr hnhost (hhost ▸ hlong.1))
      (hport ▸ portRead_bare u),
    hpath, parsePath_of_fits fun hlong => Nat.not_le.mpr hnpath hlong.1, hcopied] at hparse
  exact ⟨_, _, hparse, rfl, rfl, (path.store 0 0).holds_copy u.path⟩

/-- A path with a `//` does not come out. -/
theorem not_sameParse_of_slashes (h : ascii ['/', '/'] <:+: u.path) (host path schemestr : Buffer)
    {nhost npath : ℕ} (hnhost : u.host.length < nhost) (hnpath : u.path.length < npath) :
    ¬ SameParse
      (butilParseUrl users (some u.text) (some host) nhost (some path) npath schemestr)
      (butilParseUrl users (some (ascii ['h', 't', 't', 'p', ':', '/', '/'] ++ u.text)) (some host)
        nhost (some path) npath schemestr) := by
  intro hsame
  have htwo : 2 ≤ u.path.length := h.length_le
  have hne : u.path ≠ [] := List.ne_nil_of_length_pos (by omega)
  obtain ⟨out', buffer', hparse', hresult', hpath', hholds'⟩ :=
    path_behind_http users u hne host path schemestr hnhost hnpath
  rw [hparse'] at hsame
  obtain ⟨name, rest, hsplit⟩ := exists_split_url u.text
  have houtcome := butilParseUrl_outcome users (some host) nhost (some path) npath schemestr hsplit
  obtain ⟨ps, buffer, hsuffix, hpath, hholds⟩ :=
    path_of_result _ _ _ _ _ houtcome (hsame.result.trans hresult')
  -- both buffers hold the path
  obtain ⟨_, hmem, hheld⟩ := (hsame.path u.path u.path_nul).mpr ⟨buffer', hpath', hholds'⟩
  rw [hpath] at hmem
  cases hmem
  have hslashes : ascii ['/', '/'] <:+: u.text := calc
    ascii ['/', '/'] <:+: u.path := h
    _ <:+: u.text := (List.suffix_append (u.host ++ u.portText) u.path).isInfix
  obtain ⟨before, htext⟩ := slash_of_split hsplit hslashes
  have hrest : rest <:+ u.text := ⟨before ++ [47], by rw [htext]; simp⟩
  have hnul : 0 ∉ copiedPath ps := by
    unfold copiedPath
    by_cases hempty : ps = []
    · simp [hempty, ascii]
    · rw [if_neg hempty]
      have hend : ps <:+ u.text := calc
        ps <:+ rest := hsuffix
        _ <:+ u.text := hrest
      exact fun hmem => nul_not_mem_bare u (hend.subset hmem)
  have hcopied := hholds.unique hheld hnul u.path_nul
  -- but what follows the `//` is shorter
  have hshort := rest_shorter htext (slash_not_mem_bare u)
  have hps := hsuffix.length_le
  have hlength := congrArg List.length hcopied
  unfold copiedPath at hlength
  by_cases hempty : ps = []
  · rw [if_pos hempty] at hlength
    have hone : (ascii ['/']).length = 1 := rfl
    omega
  · rw [if_neg hempty] at hlength
    omega

/-- **A URL without a scheme means http** iff there is no `//` in its path. -/
theorem means_http_iff : MeansHttp users u.text ↔ ¬ ascii ['/', '/'] <:+: u.path := by
  constructor
  · intro hmeans hslashes
    exact not_sameParse_of_slashes users u hslashes ⟨fun _ => 0, []⟩ ⟨fun _ => 0, []⟩
      ⟨fun _ => 0, []⟩ (Nat.lt_succ_self _) (Nat.lt_succ_self _) (hmeans _ _ _ _ _)
  · exact sameParse_of_noSlashes users u

end Texts

/-- `h//x` is parsed into the host `x`. -/
theorem not_means_http_slashes : ¬ MeansHttp (fun _ => []) (ascii ['h', '/', '/', 'x']) := by
  intro hmeans
  exact not_sameParse_of_slashes (fun _ => [])
    { host := ascii ['h'], port := none, path := ascii ['/', '/', 'x'], host_ne := by simp [ascii],
      host_plain := by simp [ascii], port_digits := by simp, path_slash := Or.inr rfl,
      path_nul := by simp [ascii] }
    (by decide) ⟨fun _ => 0, []⟩ ⟨fun _ => 0, []⟩ ⟨fun _ => 0, []⟩ (Nat.lt_succ_self _)
    (Nat.lt_succ_self _) (hmeans _ _ _ _ _)

end SmbProxy.Analysis
