import SmbProxy.Analysis.UrlOutcomes
import SmbProxy.Interface.UrlMeaning

/-!
# `butil_parse_url` accepts exactly its language

Whatever is in the buffers, a call succeeds on the strings of `UrlMeans` and on no others, and
leaves in them what the string means (`url_means_iff`). The parts of a call that has succeeded
are read off its outcome; that a string means one thing only is what the other direction
rests on.
-/

set_option autoImplicit false

namespace SmbProxy.Analysis

open SmbProxy.Library SmbProxy.Model SmbProxy.Interface

section Meaning

variable {users : UserSchemes} {b : UrlBuffers} {url name rest : List UInt8}
  {scheme scheme' : ButilUrlScheme} {host host' path path' : List UInt8} {port port' : UInt16}

/-- A call leaves one host and one path. -/
theorem parsesAs_unique {out : ParsedUrl} (h : ParsesAs out scheme host port path)
    (h' : ParsesAs out scheme' host' port' path') :
    scheme' = scheme ∧ host' = host ∧ port' = port ∧ path' = path := by
  have hsame : ∀ {buffer : Option Buffer} {text text' : List UInt8},
      (∃ x ∈ buffer, x.Holds text) → (∃ x ∈ buffer, x.Holds text') → 0 ∉ text → 0 ∉ text' →
        text' = text := by
    rintro buffer text text' ⟨x, hx, hholds⟩ ⟨y, hy, hholds'⟩ hnul hnul'
    obtain rfl : x = y := Option.some.inj <| calc
      some x = buffer := hx.symm
      _ = some y := hy
    exact hholds'.unique hholds hnul' hnul
  exact ⟨h'.scheme.symm.trans h.scheme, hsame h.host h'.host h.strings.1 h'.strings.1,
    h'.port.symm.trans h.port, hsame h.path h'.path h.strings.2 h'.strings.2⟩

/-- The rest of a URL is at its end. -/
theorem rest_suffix (h : SplitUrl url name rest) : rest <:+ url := by
  cases h with
  | named rest hname => exact List.suffix_append _ _
  | slashes hnamed hbefore => exact List.suffix_append _ _
  | bare hslashes => exact List.suffix_rfl

/-- There is no NUL in the path that is meant, where there is none in the text. -/
theorem not_nul_pathIn (h : 0 ∉ path) : 0 ∉ pathIn path := by
  unfold pathIn
  split_ifs
  · decide
  · exact h

/-- What a path that fits leaves. -/
theorem accepts_of_path {out : ParsedUrl} {buffer : Buffer} {npath : ℕ} {ps : List UInt8}
    (hfits : ps.length < npath) (hpath : out.path = some buffer)
    (hhost : ∃ buffer ∈ out.host, buffer.Holds host) (hnul : 0 ∉ host) (hnulPath : 0 ∉ ps) :
    ParsesAs (parsePath npath out ps) out.scheme host out.port (pathIn ps) := by
  have hlong : ¬ (npath ≤ ps.length ∧ out.path.isSome) := by omega
  obtain ⟨hscheme, hhostKept, hport, -⟩ := parsePath_keeps npath out ps
  refine ⟨?_, ⟨hnul, not_nul_pathIn hnulPath⟩, hscheme, hhostKept ▸ hhost, hport, ?_⟩
  · rw [parsePath_of_fits hlong]
  · rw [parsePath_of_fits hlong, hpath]
    exact ⟨_, rfl, buffer.holds_copy (pathIn ps)⟩

/-- **A string of the language is accepted** with what it means. -/
theorem accepts_of_means (hnul : 0 ∉ url)
    (h : UrlMeans users b.nhost b.npath url scheme host port path) :
    ParsesAs (b.parse users url) scheme host port path := by
  unfold UrlBuffers.parse
  cases h with
  | @file name rest hsplit hknown hfits =>
      have hnulRest : 0 ∉ rest := fun hmem => hnul ((rest_suffix hsplit).subset hmem)
      rw [butilParseUrl_of_file users _ _ _ _ _ hsplit hknown]
      exact accepts_of_path hfits rfl ⟨_, rfl, b.host.holds_copy []⟩ List.not_mem_nil hnulRest
  | @host name rest scheme hsplit hknown hfile hlength hread hfits =>
      have hnulRest : 0 ∉ rest := fun hmem => hnul ((rest_suffix hsplit).subset hmem)
      rw [butilParseUrl_of_host users _ _ _ _ _ hsplit hknown hfile,
        parseHost_of_read _ _ _ _ (fun hlong => absurd hlong.1 (Nat.not_le.mpr hlength)) hread]
      have hnulHost : 0 ∉ hostOf rest := fun hmem => hnulRest ((List.takeWhile_prefix _).subset hmem)
      have hnulPath : 0 ∉ pathOf rest := fun hmem => hnulRest
        (((List.dropWhile_suffix _).trans (List.dropWhile_suffix _)).subset hmem)
      refine accepts_of_path hfits rfl ⟨_, rfl, ?_⟩ hnulHost hnulPath
      have hprefix := List.takeWhile_prefix (l := rest) isHost
      have hholds := (b.host.store 0 0).holds_strncpy hprefix.length_le
      rw [← List.prefix_iff_eq_take.mp hprefix] at hholds
      exact hholds

/-- A path that has been left was short enough. -/
theorem fits_of_result {out : ParsedUrl} {npath : ℕ} {ps : List UInt8} (hstarted : out.result = -1)
    (hpath : out.path.isSome) (hresult : (parsePath npath out ps).result = 0) :
    ps.length < npath := by
  by_contra hlong
  rw [parsePath_of_long ⟨Nat.not_lt.mp hlong, hpath⟩, hstarted] at hresult
  cases hresult

/-- **A string that is accepted** is of the language. -/
theorem means_of_result (hresult : (b.parse users url).result = 0) :
    ∃ scheme host port path, UrlMeans users b.nhost b.npath url scheme host port path := by
  have hfailed : ¬ (-1 : ℤ) = 0 := by decide
  obtain ⟨name, rest, hsplit⟩ := exists_split_url url
  have houtcome := butilParseUrl_outcome users (some b.host) b.nhost (some b.path) b.npath
    b.schemestr hsplit
  unfold UrlBuffers.parse at hresult
  generalize butilParseUrl users (some url) (some b.host) b.nhost (some b.path) b.npath
    b.schemestr = out at houtcome hresult
  cases houtcome with
  | long _ => exact absurd hresult hfailed
  | unknown _ _ => exact absurd hresult hfailed
  | file hknown => exact ⟨_, _, _, _, .file hsplit hknown (fits_of_result rfl rfl hresult)⟩
  | @host scheme out hknown hfile houtcome =>
      cases houtcome with
      | long _ => exact absurd hresult hfailed
      | refused _ _ _ _ => exact absurd hresult hfailed
      | read hlength hread =>
          have hshort : (hostOf rest).length < b.nhost :=
            Nat.lt_of_not_le fun hle => hlength ⟨hle, rfl⟩
          exact ⟨_, _, _, _,
            .host hsplit hknown hfile hshort hread (fits_of_result rfl rfl hresult)⟩

/-- **The meaning of a string as a URL.** `butil_parse_url` succeeds on the strings of the
language and on no others, and what it leaves is what the string means. -/
theorem url_means_iff (users : UserSchemes) (b : UrlBuffers) (url : List UInt8) (hnul : 0 ∉ url) :
    ((b.parse users url).result = 0 ↔
      ∃ scheme host port path, UrlMeans users b.nhost b.npath url scheme host port path) ∧
    ∀ scheme host port path, ParsesAs (b.parse users url) scheme host port path ↔
      UrlMeans users b.nhost b.npath url scheme host port path := by
  refine ⟨⟨means_of_result, ?_⟩, fun scheme host port path => ⟨fun haccepts => ?_, ?_⟩⟩
  · rintro ⟨scheme, host, port, path, hmeans⟩
    exact (accepts_of_means hnul hmeans).result
  · obtain ⟨scheme', host', port', path', hmeans⟩ := means_of_result haccepts.result
    obtain ⟨rfl, rfl, rfl, rfl⟩ := parsesAs_unique haccepts (accepts_of_means hnul hmeans)
    exact hmeans
  · exact accepts_of_means hnul

/-- `SMB://h:+44/a`, with room for the host, and for one byte more than the path. -/
theorem url_means_iff_smb :
    let rest := ascii ['h', ':', '+', '4', '4', '/', 'a']
    let b : UrlBuffers := ⟨⟨fun _ => 1, []⟩, 2, ⟨fun _ => 2, []⟩, 4, ⟨fun _ => 3, []⟩⟩
    ParsesAs (b.parse (fun _ => []) (ascii ['S', 'M', 'B'] ++ ascii [':', '/', '/'] ++ rest)) .smb
      (ascii ['h']) 44 (ascii ['/', 'a']) := by
  intro rest b
  refine ((url_means_iff (fun _ => []) b _ (by decide)).2 .smb (ascii ['h']) 44
    (ascii ['/', 'a'])).mpr ?_
  have hname : ¬ ascii [':', '/', '/'] <:+: ascii ['S', 'M', 'B'] := by decide
  have hread : ∀ text ∈ portOf rest, PortRead text := by
    rintro text ⟨⟩
    exact portRead_iff.mpr (by decide)
  exact .host (.named rest hname) ⟨by decide, rfl⟩ (by decide) (by decide) hread (by decide)

end Meaning

end SmbProxy.Analysis
