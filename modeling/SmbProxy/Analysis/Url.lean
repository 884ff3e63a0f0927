import SmbProxy.Analysis.Schemes
import SmbProxy.Analysis.UrlOutcomes

/-!
# Parsing and pasting URLs

A `UrlText` splits where its parts meet, since no part has in it what the scan for its end
looks for (`split_urlText`, `parts_of_urlText`); a second delimiter can only be in the path,
which is not scanned. What `butil_paste_url` prints for a scheme with a name to parse is a
`UrlText` (`pasted`), so that it is parsed back. `SMB` has no name to paste, and `SIP` and
`SIPS` have none to parse.
-/

set_option autoImplicit false

namespace SmbProxy.Analysis

open SmbProxy.Library SmbProxy.Model SmbProxy.Interface

/-! ## Names -/

section Names

variable (users : UserSchemes) {name : List UInt8} {scheme : ButilUrlScheme}

/-- A built-in name has its scheme, whatever is registered. -/
theorem butilSchemeFromName_builtin (h : (name.map tolower, scheme) ∈ builtinSchemes) :
    butilSchemeFromName users name = some scheme := by
  have hfind : (schemeNames.find? fun entry => strcasecmp name entry.1 = 0).map Prod.snd =
      some scheme := by
    rw [find_schemeNames]
    generalize name.map tolower = lower at h
    simp only [builtinSchemes, List.mem_cons, Prod.mk.injEq, List.not_mem_nil, or_false] at h
    rcases h with ⟨rfl, rfl⟩ | ⟨rfl, rfl⟩ | ⟨rfl, rfl⟩ | ⟨rfl, rfl⟩ | ⟨rfl, rfl⟩ | ⟨rfl, rfl⟩ |
      ⟨rfl, rfl⟩ | ⟨rfl, rfl⟩ | ⟨rfl, rfl⟩ | ⟨rfl, rfl⟩
    all_goals rfl
  obtain ⟨entry, hentry, hscheme⟩ := Option.map_eq_some_iff.mp hfind
  unfold butilSchemeFromName
  rw [hentry]
  exact congrArg some hscheme

/-- A name that is not built in can only be that of a user's scheme. -/
theorem butilSchemeFromName_unknown
    (h : (schemeNames.find? fun entry => name.map tolower = entry.1.map tolower) = none)
    (hscheme : butilSchemeFromName users name = some scheme) : ∃ n, scheme = .user n := by
  unfold butilSchemeFromName at hscheme
  rw [find_schemeNames, h] at hscheme
  obtain ⟨n, -, hn⟩ := Option.map_eq_some_iff.mp hscheme
  exact ⟨n, hn.symm⟩

end Names

/-- A name of a scheme has no `:` in it and fits into `schemestr`. -/
theorem name_plain {u : UrlText} : (58 : UInt8) ∉ u.name ∧ u.name.length < maxUrlScheme := by
  have hbuiltin := u.builtin
  have hlower : tolower 58 = 58 := rfl
  have hplain : (58 : UInt8) ∉ u.name.map tolower ∧
      (u.name.map tolower).length < maxUrlScheme := by
    generalize u.name.map tolower = lower at hbuiltin
    generalize u.scheme = scheme at hbuiltin
    have hall : ∀ entry ∈ builtinSchemes,
        (58 : UInt8) ∉ entry.1 ∧ entry.1.length < maxUrlScheme := by
      decide
    exact hall _ hbuiltin
  refine ⟨fun hmem => hplain.1 ?_, ?_⟩
  · rw [← hlower]
    exact List.mem_map_of_mem hmem
  · have hlength := hplain.2
    rwa [List.length_map] at hlength

/-! ## Parsing -/

section Texts

variable (u : UrlText)

/-- The first `://` is the one behind the name. -/
theorem split_urlText : SplitUrl u.text u.name (u.host ++ u.portText ++ u.path) := by
  have hname : ¬ ascii [':', '/', '/'] <:+: u.name := fun hsep =>
    (name_plain (u := u)).1 (hsep.subset List.mem_cons_self)
  have htext : u.text = u.name ++ ascii [':', '/', '/'] ++ (u.host ++ u.portText ++ u.path) := by
    simp only [UrlText.text, List.append_assoc]
  rw [htext]
  exact .named _ hname

/-- The scheme of a URL of the grammar is known. -/
theorem known_urlText (users : UserSchemes) : Known users u.name u.scheme :=
  ⟨name_plain.2, butilSchemeFromName_builtin users u.builtin⟩

/-- There is no slash in a port. -/
theorem slash_not_mem_port : ∀ digits ∈ u.port, 47 ∉ digits := by
  intro digits hport hmem
  cases (u.port_digits digits hport).2.2.1 47 hmem

/-- The parts of a URL of the grammar are the host, the port and the path it has been put together
from. -/
theorem parts_of_urlText :
    hostOf (u.host ++ u.portText ++ u.path) = u.host ∧
      portOf (u.host ++ u.portText ++ u.path) = u.port ∧
      pathOf (u.host ++ u.portText ++ u.path) = u.path :=
  parts_of_text (fun c hc => decide_eq_true (u.host_plain c hc)) (slash_not_mem_port u)
    u.path_slash

/-- The port of a URL of the grammar is read to its end. -/
theorem portRead_urlText : ∀ text ∈ u.port, PortRead text := by
  intro digits hport
  obtain ⟨hne, hlength, hdigits, -⟩ := u.port_digits digits hport
  exact portRead_of_digits hne hlength hdigits

/-- It is read as its number. -/
theorem portRead_eq_portNumber :
    portRead (defaultPort u.scheme) (u.host ++ u.portText ++ u.path) = u.portNumber := by
  unfold portRead UrlText.portNumber
  rw [(parts_of_urlText u).2.1]
  cases hport : u.port with
  | none => rfl
  | some digits =>
      obtain ⟨hne, -, hdigits, hvalue⟩ := u.port_digits digits hport
      have hread : strtoul (digits ++ []) = (digitsValue digits, []) :=
        strtoul_digits hne hdigits (by omega) fun c hc => by cases hc
      rw [List.append_nil] at hread
      simp only [hread]

end Texts

/-- `butil_parse_url` on a text of the grammar. -/
theorem parse_urlText (u : UrlText) (users : UserSchemes) (b : UrlBuffers)
    (hhost : u.host.length < b.nhost) (hpath : u.path.length < b.npath)
    (hpathText : u.pathText.length < b.npath) :
    Parsed b (b.parse users u.text) u.scheme u.host u.portNumber u.pathText := by
  obtain ⟨hhostOf, hportOf, hpathOf⟩ := parts_of_urlText u
  have hfile : u.scheme ≠ .file := by
    have hall : ∀ entry ∈ builtinSchemes, entry.2 ≠ .file := by decide
    exact hall _ u.builtin
  have hread : ∀ text ∈ portOf (u.host ++ u.portText ++ u.path), PortRead text := by
    rw [hportOf]
    exact portRead_urlText u
  unfold UrlBuffers.parse
  rw [butilParseUrl_of_host users _ _ _ _ _ (split_urlText u) (known_urlText u users) hfile,
    parseHost_of_read _ _ _ _ (fun hlong => Nat.not_le.mpr hhost (hhostOf ▸ hlong.1)) hread,
    hpathOf, parsePath_of_fits fun hlong => Nat.not_le.mpr hpath hlong.1]
  refine ⟨rfl, rfl, ⟨hhost, _, rfl, ?_⟩, portRead_eq_portNumber u, ⟨hpathText, _, rfl, ?_⟩⟩
  · have hle : u.host.length ≤ (u.host ++ u.portText ++ u.path).length := by
      simp only [List.length_append]
      omega
    have hholds := (b.host.store 0 0).holds_strncpy hle
    rw [hhostOf]
    rwa [List.append_assoc, List.take_left, ← List.append_assoc] at hholds
  · exact (b.path.store 0 0).holds_copy u.pathText

/-- **The grammar is accepted, and its parts are returned.** -/
theorem butil_parse_url_grammar (u : UrlText) (users : UserSchemes) (b : UrlBuffers)
    (hhost : u.host.length < b.nhost) (hpath : u.path.length < b.npath) (hnpath : 2 ≤ b.npath) :
    Parsed b (b.parse users u.text) u.scheme u.host u.portNumber u.pathText := by
  apply parse_urlText u users b hhost hpath
  unfold UrlText.pathText
  by_cases hempty : u.path = []
  · rw [if_pos hempty]
    exact hnpath
  · rw [if_neg hempty]
    exact hpath

/-- `SmB://h:09/a://b` into buffers that just hold its parts. -/
theorem butil_parse_url_grammar_mixed :
    Parsed ⟨⟨fun _ => 0, []⟩, 2, ⟨fun _ => 0, []⟩, 9, ⟨fun _ => 0, []⟩⟩
      (UrlBuffers.parse ⟨⟨fun _ => 0, []⟩, 2, ⟨fun _ => 0, []⟩, 9, ⟨fun _ => 0, []⟩⟩ (fun _ => [])
        (ascii ['S', 'm', 'B', ':', '/', '/', 'h', ':', '0', '9', '/', 'a', ':', '/', '/', 'b']))
      .smb (ascii ['h']) 9 (ascii ['/', 'a', ':', '/', '/', 'b']) :=
  butil_parse_url_grammar
    { name := ascii ['S', 'm', 'B'], scheme := .smb, host := ascii ['h'],
      port := some (ascii ['0', '9']), path := ascii ['/', 'a', ':', '/', '/', 'b'],
      builtin := by decide, host_plain := by simp [ascii],
      port_digits := by simp [ascii, isdigit, digitsValue],
      path_slash := by decide }
    (fun _ => []) ⟨⟨fun _ => 0, []⟩, 2, ⟨fun _ => 0, []⟩, 9, ⟨fun _ => 0, []⟩⟩ (by decide) (by decide)
    (by decide)

/-! ## Pasting -/

section Paste

variable {users : UserSchemes} {scheme : ButilUrlScheme} {host path : List UInt8} {port : UInt16}

/-- The schemes that both tables of names know. -/
theorem butilSchemeName_builtin (users : UserSchemes)
    (hscheme : scheme ≠ .file ∧ ∀ n, scheme ≠ .user n)
    (hnamed : scheme ≠ .smb ∧ scheme ≠ .sip ∧ scheme ≠ .sips) :
    ((butilSchemeName users scheme).map tolower, scheme) ∈ builtinSchemes := by
  cases scheme with
  | file => exact absurd rfl hscheme.1
  | user n => exact absurd rfl (hscheme.2 n)
  | smb => exact absurd rfl hnamed.1
  | sip => exact absurd rfl hnamed.2.1
  | sips => exact absurd rfl hnamed.2.2
  | _ => exact List.elem_iff.mp rfl

/-- A name of a scheme has neither a NUL nor a `:` in it. -/
theorem butilSchemeName_plain (hscheme : ∀ n, scheme ≠ .user n) :
    ∀ c ∈ butilSchemeName users scheme, c ≠ 0 ∧ c ≠ 58 := by
  have hall : (butilSchemeName users scheme).all (fun c => c ≠ 0 ∧ c ≠ 58) = true := by
    cases scheme with
    | user n => exact absurd rfl (hscheme n)
    | _ => rfl
  intro c hc
  exact of_decide_eq_true (List.all_eq_true.mp hall c hc)

/-- The name of a scheme is short and has no capital letters. -/
theorem butilSchemeName_lower (hscheme : ∀ n, scheme ≠ .user n) :
    ((butilSchemeName users scheme).take (maxUrlScheme - 1)).map tolower =
      butilSchemeName users scheme := by
  cases scheme with
  | user n => exact absurd rfl (hscheme n)
  | _ => rfl

/-- The path is pasted with one slash in front. -/
theorem slash_append_path (path : List UInt8) :
    ascii ['/'] ++ (if path.head? = some 47 then path.tail else path) = withSlash path := by
  unfold withSlash
  by_cases hhead : path.head? = some 47
  · rw [if_pos hhead, if_pos hhead]
    exact List.cons_head?_tail hhead
  · rw [if_neg hhead, if_neg hhead]
    rfl

/-- It begins with it. -/
theorem head_withSlash (path : List UInt8) : (withSlash path).head? = some 47 := by
  unfold withSlash
  by_cases hhead : path.head? = some 47
  · rw [if_pos hhead, hhead]
  · rw [if_neg hhead]
    rfl

/-- The text that is pasted, for a built-in scheme and a port. -/
theorem pastedUrl_eq (hscheme : ∀ n, scheme ≠ .user n) (hport : port ≠ 0) :
    pastedUrl users scheme host port path =
      butilSchemeName users scheme ++ ascii [':', '/', '/'] ++ host ++ 58 :: decimal port.toNat ++
        withSlash path := by
  unfold pastedUrl
  simp only [butilSchemeName_lower hscheme, useport, if_neg hport, List.append_assoc,
    ← slash_append_path]
  rfl

/-- Its length is the one that the room is counted with. -/
theorem length_pastedUrl (users : UserSchemes) (host path : List UInt8)
    (hscheme : ∀ n, scheme ≠ .user n) (hport : port ≠ 0) :
    (pastedUrl users scheme host port path).length = urlLength users scheme host port path := by
  rw [pastedUrl_eq hscheme hport]
  simp only [urlLength, List.length_append, List.length_cons]
  have hsep : (ascii [':', '/', '/']).length = 3 := rfl
  omega

/-- The text that is pasted for a scheme with a name to parse. -/
def pasted (users : UserSchemes) (scheme : ButilUrlScheme) (host : List UInt8) (port : UInt16)
    (path : List UInt8)
    (hbuiltin : ((butilSchemeName users scheme).map tolower, scheme) ∈ builtinSchemes)
    (hhost : ∀ c ∈ host, c ≠ 58 ∧ c ≠ 47) : UrlText where
  name := butilSchemeName users scheme
  scheme := scheme
  host := host
  port := some (decimal port.toNat)
  path := withSlash path
  builtin := hbuiltin
  host_plain := hhost
  port_digits := by
    rintro digits ⟨⟩
    have hlt := port.toNat_lt
    refine ⟨decimal_ne_nil, length_decimal_le (by decide) (by omega), isdigit_decimal, ?_⟩
    rw [digitsValue_decimal]
    omega
  path_slash := Or.inr (head_withSlash path)

/-- A path with its slash is not empty. -/
theorem withSlash_ne_nil : withSlash path ≠ [] := by
  intro hnil
  have hhead := head_withSlash path
  rw [hnil] at hhead
  cases hhead

/-- The path of the URL that is pasted. -/
theorem pathText_pasted
    (hbuiltin : ((butilSchemeName users scheme).map tolower, scheme) ∈ builtinSchemes)
    (hhost : ∀ c ∈ host, c ≠ 58 ∧ c ≠ 47) :
    (pasted users scheme host port path hbuiltin hhost).pathText = withSlash path :=
  if_neg withSlash_ne_nil

/-- The port of the URL that is pasted. -/
theorem portNumber_pasted
    (hbuiltin : ((butilSchemeName users scheme).map tolower, scheme) ∈ builtinSchemes)
    (hhost : ∀ c ∈ host, c ≠ 58 ∧ c ≠ 47) :
    (pasted users scheme host port path hbuiltin hhost).portNumber = port := by
  show UInt16.ofNat (digitsValue (decimal port.toNat)) = port
  rw [digitsValue_decimal]
  exact UInt16.ofNat_toNat

/-- The text of the URL that is pasted. -/
theorem text_pasted
    (hbuiltin : ((butilSchemeName users scheme).map tolower, scheme) ∈ builtinSchemes)
    (hhost : ∀ c ∈ host, c ≠ 58 ∧ c ≠ 47) (hscheme : ∀ n, scheme ≠ .user n) (hport : port ≠ 0) :
    (pasted users scheme host port path hbuiltin hhost).text =
      pastedUrl users scheme host port path := by
  rw [pastedUrl_eq hscheme hport]
  rfl

/-- `snprintf` with room enough and a length that is an `int`. -/
theorem butilPasteUrl_succeeds (url : Buffer) {nurl : ℕ}
    (hnurl : (pastedUrl users scheme host port path).length < nurl)
    (hint : (pastedUrl users scheme host port path).length < 2 ^ 31) :
    ∃ url', butilPasteUrl users (some url) nurl scheme (some host) port (some path) =
        (0, some url') ∧ url'.Holds (pastedUrl users scheme host port path) := by
  obtain ⟨hprint, hholds⟩ := Buffer.snprintf_of_lt url hnurl hint
  refine ⟨(url.snprintf nurl (pastedUrl users scheme host port path)).2, ?_, hholds⟩
  have hroom : ¬ (nurl : ℤ) ≤
      (url.snprintf nurl (pastedUrl users scheme host port path)).1 % 2 ^ 64 := by
    rw [hprint]
    omega
  unfold butilPasteUrl
  exact if_neg hroom

/-- A text that is longer than an `int` cannot be printed. -/
theorem butilPasteUrl_fails (url : Buffer) {nurl : ℕ} (hnurl : nurl < 2 ^ 64)
    (hlong : nurl ≤ (pastedUrl users scheme host port path).length ∨
      2 ^ 31 ≤ (pastedUrl users scheme host port path).length) :
    (butilPasteUrl users (some url) nurl scheme (some host) port (some path)).1 = -1 := by
  have hroom : (nurl : ℤ) ≤
      (url.snprintf nurl (pastedUrl users scheme host port path)).1 % 2 ^ 64 := by
    unfold Buffer.snprintf
    split_ifs with hint hzero
    · omega
    · omega
    · dsimp only
      omega
  unfold butilPasteUrl
  simp only [Option.getD_some, if_pos hroom]

/-- With room for the text, and a length that is an `int`, the text is in the buffer. -/
theorem butilPasteUrl_of_lt (url : Buffer) {nurl : ℕ} (hscheme : ∀ n, scheme ≠ .user n)
    (hport : port ≠ 0) (hnurl : urlLength users scheme host port path < nurl)
    (hint : urlLength users scheme host port path < 2 ^ 31) :
    ∃ url', butilPasteUrl users (some url) nurl scheme (some host) port (some path) =
        (0, some url') ∧ url'.Holds (pastedUrl users scheme host port path) := by
  rw [← length_pastedUrl users host path hscheme hport] at hnurl hint
  exact butilPasteUrl_succeeds url hnurl hint

/-- A text whose length is no `int` is refused. -/
theorem butilPasteUrl_of_le (url : Buffer) {nurl : ℕ} (hscheme : ∀ n, scheme ≠ .user n)
    (hport : port ≠ 0) (hnurl : nurl < 2 ^ 64)
    (hint : 2 ^ 31 ≤ urlLength users scheme host port path) :
    (butilPasteUrl users (some url) nurl scheme (some host) port (some path)).1 = -1 := by
  rw [← length_pastedUrl users host path hscheme hport] at hint
  exact butilPasteUrl_fails url hnurl (Or.inr hint)

end Paste

/-! ## Parsing what has been pasted -/

section RoundTrip

variable {users : UserSchemes} {scheme : ButilUrlScheme} {host path : List UInt8} {port : UInt16}

/-- The name that is pasted for the others is not one to parse. -/
theorem schemeNames_unknown (hscheme : scheme ≠ .file ∧ ∀ n, scheme ≠ .user n)
    (hunnamed : ¬ (scheme ≠ .smb ∧ scheme ≠ .sip ∧ scheme ≠ .sips)) :
    (schemeNames.find? fun entry =>
      (butilSchemeName users scheme).map tolower = entry.1.map tolower) = none := by
  cases scheme with
  | smb => rfl
  | sip => rfl
  | sips => rfl
  | file => exact absurd rfl hscheme.1
  | user n => exact absurd rfl (hscheme.2 n)
  | _ => exact absurd ⟨by decide, by decide, by decide⟩ hunnamed

/-- There is no NUL in the text. -/
theorem nul_not_mem_pasted (hscheme : ∀ n, scheme ≠ .user n) (hport : port ≠ 0)
    (hhost : 0 ∉ host) (hpath : 0 ∉ path) : 0 ∉ pastedUrl users scheme host port path := by
  have hname : 0 ∉ butilSchemeName users scheme := fun hmem =>
    (butilSchemeName_plain hscheme 0 hmem).1 rfl
  have hdecimal : 0 ∉ decimal port.toNat := fun hmem => by
    cases isdigit_decimal 0 hmem
  have hslash : 0 ∉ withSlash path := by
    unfold withSlash
    by_cases hhead : path.head? = some 47
    · rwa [if_pos hhead]
    · rw [if_neg hhead]
      exact List.not_mem_cons_of_ne_of_not_mem (by decide) hpath
  rw [pastedUrl_eq hscheme hport]
  simp only [List.mem_append, List.mem_cons, not_or]
  exact ⟨⟨⟨⟨hname, by decide⟩, hhost⟩, by decide, hdecimal⟩, hslash⟩

/-- What is parsed back has been pasted with a name to parse, in a text whose length is an
`int`. -/
theorem named_of_parsesBack {url : Buffer} {nurl : ℕ} {b : UrlBuffers}
    (hscheme : scheme ≠ .file ∧ ∀ n, scheme ≠ .user n) (hport : port ≠ 0) (hhost : 0 ∉ host)
    (hpath : 0 ∉ path) (hnurl : urlLength users scheme host port path < nurl ∧ nurl < 2 ^ 64)
    (h : ParsesBack users url nurl b scheme host port path) :
    (scheme ≠ .smb ∧ scheme ≠ .sip ∧ scheme ≠ .sips) ∧
      urlLength users scheme host port path < 2 ^ 31 := by
  obtain ⟨url', text, hpaste, hholds, htext, hparsed⟩ := h
  have hint : urlLength users scheme host port path < 2 ^ 31 := by
    by_contra hlong
    have hfailed := butilPasteUrl_of_le url hscheme.2 hport hnurl.2 (not_lt.mp hlong)
    rw [hpaste] at hfailed
    cases hfailed
  refine ⟨?_, hint⟩
  by_contra hunnamed
  -- the string in the buffer is the one that was printed
  obtain ⟨url'', hpaste', hholds'⟩ := butilPasteUrl_of_lt url hscheme.2 hport hnurl.1 hint
  rw [hpaste] at hpaste'
  cases hpaste'
  obtain rfl := hholds.unique hholds' htext (nul_not_mem_pasted hscheme.2 hport hhost hpath)
  -- its name is found by nobody but a user's scheme
  have hcolon : ¬ ascii [':', '/', '/'] <:+: butilSchemeName users scheme := fun hsep =>
    (butilSchemeName_plain hscheme.2 58 (hsep.subset List.mem_cons_self)).2 rfl
  have hprinted : pastedUrl users scheme host port path = butilSchemeName users scheme ++
      ascii [':', '/', '/'] ++ (host ++ 58 :: decimal port.toNat ++ withSlash path) := by
    rw [pastedUrl_eq hscheme.2 hport]
    simp only [List.append_assoc]
  rw [hprinted] at hparsed
  have houtcome := butilParseUrl_outcome users (some b.host) b.nhost (some b.path) b.npath
    b.schemestr (.named (host ++ 58 :: decimal port.toNat ++ withSlash path) hcolon)
  have hknown := known_of_result _ _ _ _ _ _ houtcome hparsed.result
  have hfrom := calc
    butilSchemeFromName users (butilSchemeName users scheme) = some _ := hknown.2
    _ = some scheme := congrArg some hparsed.scheme
  obtain ⟨n, hn⟩ :=
    butilSchemeFromName_unknown users (schemeNames_unknown hscheme hunnamed) hfrom
  exact hscheme.2 n hn

/-- **Parsing undoes pasting** for the schemes with a name to paste and to parse, as long as
the length of the text is an `int`. -/
theorem parses_back_iff (users : UserSchemes) (url : Buffer) {nurl : ℕ} (b : UrlBuffers)
    (hscheme : scheme ≠ .file ∧ ∀ n, scheme ≠ .user n)
    (hhost : ∀ c ∈ host, c ≠ 0 ∧ c ≠ 58 ∧ c ≠ 47) (hport : port ≠ 0) (hpath : 0 ∉ path)
    (hnurl : urlLength users scheme host port path < nurl ∧ nurl < 2 ^ 64)
    (hnhost : host.length < b.nhost) (hnpath : (withSlash path).length < b.npath) :
    ParsesBack users url nurl b scheme host port path ↔
      (scheme ≠ .smb ∧ scheme ≠ .sip ∧ scheme ≠ .sips) ∧
        urlLength users scheme host port path < 2 ^ 31 := by
  have hplain : ∀ c ∈ host, c ≠ 58 ∧ c ≠ 47 := fun c hc => (hhost c hc).2
  have hnul : 0 ∉ host := fun hmem => (hhost 0 hmem).1 rfl
  constructor
  · exact named_of_parsesBack hscheme hport hnul hpath hnurl
  · rintro ⟨hnamed, hint⟩
    obtain ⟨url', hpaste, hholds⟩ := butilPasteUrl_of_lt url hscheme.2 hport hnurl.1 hint
    refine ⟨url', _, hpaste, hholds, nul_not_mem_pasted hscheme.2 hport hnul hpath, ?_⟩
    have hbuiltin := butilSchemeName_builtin users hscheme hnamed
    have hparsed := parse_urlText (pasted users scheme host port path hbuiltin hplain) users b hnhost
      hnpath (pathText_pasted hbuiltin hplain ▸ hnpath)
    rw [text_pasted hbuiltin hplain hscheme.2 hport, pathText_pasted hbuiltin hplain,
      portNumber_pasted hbuiltin hplain] at hparsed
    exact hparsed

/-- `http://h:8080/x` -/
theorem parses_back_http :
    ParsesBack (fun _ => []) ⟨fun _ => 0, []⟩ 64 ⟨⟨fun _ => 0, []⟩, 64, ⟨fun _ => 0, []⟩, 64,
      ⟨fun _ => 0, []⟩⟩ .http (ascii ['h']) 8080 (ascii ['x']) :=
  (parses_back_iff (fun _ => []) ⟨fun _ => 0, []⟩ ⟨⟨fun _ => 0, []⟩, 64, ⟨fun _ => 0, []⟩, 64,
    ⟨fun _ => 0, []⟩⟩ ⟨by decide, fun _ => ButilUrlScheme.noConfusion⟩ (by simp [ascii])
    (by decide) (by decide) (by decide) (by decide) (by decide)).mpr ⟨by decide, by decide⟩

/-- `SMB` is pasted as `????`. -/
theorem not_parses_back_smb :
    ¬ ParsesBack (fun _ => []) ⟨fun _ => 0, []⟩ 64 ⟨⟨fun _ => 0, []⟩, 64, ⟨fun _ => 0, []⟩, 64,
      ⟨fun _ => 0, []⟩⟩ .smb (ascii ['h']) 445 (ascii ['x']) := by
  intro h
  have hnamed := named_of_parsesBack ⟨by decide, fun _ => ButilUrlScheme.noConfusion⟩ (by decide)
    (by decide) (by decide) (by decide) h
  exact hnamed.1.1 rfl

end RoundTrip

end SmbProxy.Analysis
