import SmbProxy.Interface.UrlStrings

/-!
# What `butil_parse_url` does with any string

The searches of `butil_parse_url` cut every string in the one way of `SplitUrl`
(`schemePart_of_split`), and its scans cut the rest into host, port and path
(`parseHost_eq`). So a call is a function of the parts, and ends in one of a few ways
(`ParseOutcome`).
-/

set_option autoImplicit false

namespace SmbProxy.Analysis

open SmbProxy.Library SmbProxy.Model SmbProxy.Interface

/-! ## The scheme -/

section Scheme

variable {url name rest : List UInt8}

/-- The searches find the scheme where a string splits. -/
theorem schemePart_of_split (h : SplitUrl url name rest) :
    ∃ ps, schemePart url = (ps, name.length, rest) ∧ ps.take name.length = name := by
  have hsep : ascii [':', '/', '/'] = 58 :: [47, 47] := rfl
  have hbehind : ∀ (before rest needle : List UInt8),
      (before ++ needle ++ rest).drop (before.length + needle.length) = rest := by
    intro before rest needle
    rw [← List.length_append, List.drop_left]
  cases h with
  | named rest hname =>
      have hfound : strstr (name ++ ascii [':', '/', '/'] ++ rest) (ascii [':', '/', '/']) =
          some name.length := by
        rw [hsep]
        exact strstr_behind (by decide) (hsep ▸ hname) rest
      refine ⟨name ++ ascii [':', '/', '/'] ++ rest, ?_, by rw [List.append_assoc, List.take_left]⟩
      unfold schemePart
      rw [hfound]
      exact congrArg _ (congrArg _ (hbehind name rest (ascii [':', '/', '/'])))
  | @slashes before rest hsep hbefore =>
      have hmissed := (strstr_eq_none_iff (by simp [ascii])).mpr hsep
      have hfound : strstr (before ++ ascii ['/', '/'] ++ rest) (ascii ['/', '/']) =
          some before.length := (strstr_append_iff (by simp [ascii]) before rest).mpr hbefore
      refine ⟨ascii ['h', 't', 't', 'p'], ?_, rfl⟩
      unfold schemePart
      rw [hmissed, hfound]
      exact congrArg _ (congrArg _ (hbehind before rest (ascii ['/', '/'])))
  | bare hrest =>
      have hnosep : ¬ ascii [':', '/', '/'] <:+: url := fun hsep =>
        hrest (List.IsInfix.trans ⟨[58], [], rfl⟩ hsep)
      have hmissed := (strstr_eq_none_iff (by simp [ascii])).mpr hnosep
      have hmissed' := (strstr_eq_none_iff (by simp [ascii])).mpr hrest
      refine ⟨ascii ['h', 't', 't', 'p'], ?_, rfl⟩
      unfold schemePart
      rw [hmissed, hmissed']
      rfl

/-- Every string has a name and a rest. -/
theorem exists_split_url (url : List UInt8) : ∃ name rest, SplitUrl url name rest := by
  cases hsep : strstr url (ascii [':', '/', '/']) with
  | some k =>
      obtain ⟨name, rest, rfl, rfl⟩ := exists_of_strstr (by simp [ascii]) hsep
      refine ⟨name, rest, .named rest fun hname => ?_⟩
      apply (strstr_append_iff (by simp [ascii]) name rest).mp hsep
      exact hname.trans (List.prefix_append name _).isInfix
  | none =>
      have hnosep := (strstr_eq_none_iff (by simp [ascii])).mp hsep
      cases hslashes : strstr url (ascii ['/', '/']) with
      | some k =>
          obtain ⟨before, rest, rfl, rfl⟩ := exists_of_strstr (by simp [ascii]) hslashes
          exact ⟨_, rest, .slashes hnosep
            ((strstr_append_iff (by simp [ascii]) before rest).mp hslashes)⟩
      | none => exact ⟨_, url, .bare ((strstr_eq_none_iff (by simp [ascii])).mp hslashes)⟩

/-- The rest of a string with a `//` begins behind a `/`. -/
theorem slash_of_split (h : SplitUrl url name rest) (hslashes : ascii ['/', '/'] <:+: url) :
    ∃ before, url = before ++ 47 :: rest := by
  cases h with
  | named rest hname =>
      refine ⟨name ++ [58, 47], ?_⟩
      simp [ascii]
  | @slashes before rest hsep hbefore =>
      refine ⟨before ++ [47], ?_⟩
      simp [ascii]
  | bare hrest => exact absurd hslashes hrest

/-- A string with `://` in it is divided at the first one. -/
theorem named_of_infix (h : ascii [':', '/', '/'] <:+: url) :
    ∃ name rest, url = name ++ ascii [':', '/', '/'] ++ rest ∧
      ¬ ascii [':', '/', '/'] <:+: name := by
  obtain ⟨name, rest, hsplit⟩ := exists_split_url url
  cases hsplit with
  | named rest hname => exact ⟨name, rest, rfl, hname⟩
  | slashes hsep _ => exact absurd h hsep
  | bare hrest => exact absurd (List.IsInfix.trans ⟨[58], [], rfl⟩ h) hrest

/-- A URL that begins with `http://` has this name, and the rest behind it. -/
theorem split_http (rest : List UInt8) :
    SplitUrl (ascii ['h', 't', 't', 'p', ':', '/', '/'] ++ rest) (ascii ['h', 't', 't', 'p'])
      rest := by
  have hname : ¬ ascii [':', '/', '/'] <:+: ascii ['h', 't', 't', 'p'] := by decide
  exact .named rest hname

/-- `http` is known, whatever is registered. -/
theorem known_http (users : UserSchemes) : Known users (ascii ['h', 't', 't', 'p']) .http :=
  ⟨by decide, rfl⟩

end Scheme

/-! ## The path -/

section Path

variable {npath : ℕ} {out : ParsedUrl} {ps : List UInt8}

/-- The path that is copied is not empty. -/
def copiedPath (ps : List UInt8) : List UInt8 := if ps = [] then ascii ['/'] else ps

/-- A path that fits is stored. -/
theorem parsePath_of_fits (h : ¬ (npath ≤ ps.length ∧ out.path.isSome)) :
    parsePath npath out ps =
      { out with
        result := 0
        path := out.path.map fun path =>
          (path.strncpy (copiedPath ps) (copiedPath ps).length).store (copiedPath ps).length 0 } :=
  if_neg h

/-- A path that does not fit leaves the result as it was. -/
theorem parsePath_of_long (h : npath ≤ ps.length ∧ out.path.isSome) :
    parsePath npath out ps = out := if_pos h

/-- Nothing but the result and the path is stored. -/
theorem parsePath_keeps (npath : ℕ) (out : ParsedUrl) (ps : List UInt8) :
    (parsePath npath out ps).scheme = out.scheme ∧ (parsePath npath out ps).host = out.host ∧
      (parsePath npath out ps).port = out.port ∧
      (parsePath npath out ps).schemestr = out.schemestr := by
  by_cases hlong : npath ≤ ps.length ∧ out.path.isSome
  · rw [parsePath_of_long hlong]
    exact ⟨rfl, rfl, rfl, rfl⟩
  · rw [parsePath_of_fits hlong]
    exact ⟨rfl, rfl, rfl, rfl⟩

end Path

/-! ## The host and the port -/

section Host

variable {rest text : List UInt8}

/-- The path is empty or begins with the `/` that ends the scan. -/
theorem pathOf_slash (rest : List UInt8) : pathOf rest = [] ∨ ∃ path, pathOf rest = 47 :: path := by
  have hhead := List.head?_dropWhile_not (fun c : UInt8 => decide (c ≠ 47)) (rest.dropWhile isHost)
  unfold pathOf
  cases hpath : (rest.dropWhile isHost).dropWhile (fun c => decide (c ≠ 47)) with
  | nil => exact Or.inl rfl
  | cons c path =>
      rw [hpath] at hhead
      have hc : c = 47 := by simpa using hhead
      exact Or.inr ⟨path, by rw [hc]⟩

/-- The path is not malformed. -/
theorem pathOf_formed (rest : List UInt8) :
    ¬ ((pathOf rest).head? ≠ some 47 ∧ pathOf rest ≠ []) := by
  rcases pathOf_slash rest with hnil | ⟨path, hpath⟩
  · simp [hnil]
  · simp [hpath]

/-- Without a port the path comes behind the host. -/
theorem behind_host_of_none (h : portOf rest = none) : rest.dropWhile isHost = pathOf rest := by
  have hhead := List.head?_dropWhile_not isHost rest
  unfold portOf at h
  unfold pathOf
  cases hbehind : rest.dropWhile isHost with
  | nil => rfl
  | cons c text =>
      rw [hbehind] at h hhead
      have hstop : isHost c = false := hhead
      by_cases hc : c = 58
      · simp [hc] at h
      · have hslash : c = 47 := by simpa [isHost, hc] using hstop
        simp [hslash]

/-- With a port there is a colon behind the host, and the path behind the port. -/
theorem behind_host_of_some (h : portOf rest = some text) :
    rest.dropWhile isHost = 58 :: (text ++ pathOf rest) := by
  unfold portOf at h
  unfold pathOf
  cases hbehind : rest.dropWhile isHost with
  | nil =>
      rw [hbehind] at h
      cases h
  | cons c tail =>
      rw [hbehind] at h
      by_cases hc : c = 58
      · simp only [if_pos hc, Option.some.injEq] at h
        subst hc
        rw [← h]
        simp
      · simp [hc] at h

/-- There is no `/` in the text of the port. -/
theorem slash_not_mem_portOf (h : portOf rest = some text) : 47 ∉ text := by
  unfold portOf at h
  cases hbehind : rest.dropWhile isHost with
  | nil =>
      rw [hbehind] at h
      cases h
  | cons c tail =>
      rw [hbehind] at h
      by_cases hc : c = 58
      · simp only [if_pos hc, Option.some.injEq] at h
        intro hmem
        rw [← h] at hmem
        simpa using List.mem_takeWhile_imp hmem
      · simp [hc] at h

section Parts

variable {host path : List UInt8}

/-- The parts of a rest without a port. -/
theorem parts_of_none (hhost : ∀ c ∈ host, isHost c = true)
    (hpath : path = [] ∨ path.head? = some 47) :
    hostOf (host ++ path) = host ∧ portOf (host ++ path) = none ∧ pathOf (host ++ path) = path := by
  have hstop : ∀ c ∈ path.head?, isHost c = false := by
    intro c hc
    cases hpath with
    | inl hnil =>
        rw [hnil] at hc
        cases hc
    | inr hslash =>
        rw [hslash] at hc
        cases hc
        rfl
  have hbehind := dropWhile_append_stop hhost hstop
  refine ⟨takeWhile_append_stop hhost hstop, ?_, ?_⟩
  · unfold portOf
    rw [hbehind]
    cases path with
    | nil => rfl
    | cons c path =>
        have hc : c = 47 := by simpa using hpath
        simp [hc]
  · unfold pathOf
    rw [hbehind]
    cases path with
    | nil => rfl
    | cons c path =>
        have hc : c = 47 := by simpa using hpath
        simp [hc]

/-- The parts of a rest with a port. -/
theorem parts_of_some (hhost : ∀ c ∈ host, isHost c = true) (htext : 47 ∉ text)
    (hpath : path = [] ∨ path.head? = some 47) :
    hostOf (host ++ 58 :: (text ++ path)) = host ∧
      portOf (host ++ 58 :: (text ++ path)) = some text ∧
      pathOf (host ++ 58 :: (text ++ path)) = path := by
  have hstop : ∀ c ∈ (58 :: (text ++ path)).head?, isHost c = false := by
    rintro _ ⟨⟩
    rfl
  have hscan : ∀ c ∈ text, decide (c ≠ 47) = true := fun c hc =>
    decide_eq_true fun heq => htext (heq ▸ hc)
  have hslash : ∀ c ∈ path.head?, decide (c ≠ 47) = false := by
    intro c hc
    cases hpath with
    | inl hnil =>
        rw [hnil] at hc
        cases hc
    | inr hslash =>
        rw [hslash] at hc
        cases hc
        rfl
  have hbehind := dropWhile_append_stop hhost hstop
  refine ⟨takeWhile_append_stop hhost hstop, ?_, ?_⟩
  · unfold portOf
    rw [hbehind]
    simp only [if_true, takeWhile_append_stop hscan hslash]
  · unfold pathOf
    rw [hbehind, List.dropWhile_cons_of_pos (by simp)]
    exact dropWhile_append_stop hscan hslash

/-- The text of a port behind its `:`. -/
def colonText : Option (List UInt8) → List UInt8
  | none => []
  | some text => 58 :: text

/-- A host, a port and a path are the parts of their text. -/
theorem parts_of_text {port : Option (List UInt8)} (hhost : ∀ c ∈ host, isHost c = true)
    (hport : ∀ text ∈ port, 47 ∉ text) (hpath : path = [] ∨ path.head? = some 47) :
    hostOf (host ++ colonText port ++ path) = host ∧
      portOf (host ++ colonText port ++ path) = port ∧
      pathOf (host ++ colonText port ++ path) = path := by
  rw [List.append_assoc]
  cases port with
  | none => exact parts_of_none hhost hpath
  | some text => exact parts_of_some hhost (hport text rfl) hpath

end Parts

/-- `strtoul` stays in the text of the port. -/
theorem strtoul_portText (text rest : List UInt8) :
    strtoul (text ++ pathOf rest) = ((strtoul text).1, (strtoul text).2 ++ pathOf rest) := by
  cases pathOf_slash rest with
  | inl hnil => rw [hnil, List.append_nil, List.append_nil]
  | inr hslash =>
      obtain ⟨path, hpath⟩ := hslash
      rw [hpath]
      exact strtoul_append_stop rfl rfl (by decide) text path

/-- A port is read if it is short and a number to its end. -/
theorem portRead_iff : PortRead text ↔ text.length ≤ maxPortspec ∧ (strtoul text).2 = [] := by
  rw [strtoul_whole_iff]
  rfl

/-- One to five digits are read. -/
theorem portRead_of_digits (hne : text ≠ []) (hlength : text.length ≤ maxPortspec)
    (hdigits : ∀ c ∈ text, isdigit c = true) : PortRead text :=
  ⟨hlength, Or.inr ⟨[], [], text, rfl, by simp, Or.inl rfl, hne, hdigits⟩⟩

/-- Without a port the one of the scheme stays. -/
theorem portPart_of_none (portnum : UInt16) (h : portOf rest = none) :
    portPart portnum (rest.dropWhile isHost) = some (portnum, pathOf rest) := by
  rw [behind_host_of_none h]
  cases pathOf_slash rest with
  | inl hnil =>
      rw [hnil]
      rfl
  | inr hslash =>
      obtain ⟨path, hpath⟩ := hslash
      rw [hpath]
      rfl

/-- A port is refused if too many characters of it are a number, and otherwise what is behind the
number goes to the path. -/
theorem portPart_of_some (portnum : UInt16) (h : portOf rest = some text) :
    portPart portnum (rest.dropWhile isHost) =
      if maxPortspec < text.length - (strtoul text).2.length then none
      else some (UInt16.ofNat (strtoul text).1, (strtoul text).2 ++ pathOf rest) := by
  have hlength : (text ++ pathOf rest).length - ((strtoul text).2 ++ pathOf rest).length =
      text.length - (strtoul text).2.length := by
    simp only [List.length_append]
    omega
  rw [behind_host_of_some h]
  unfold portPart
  simp only [if_true, strtoul_portText, hlength]

/-- The record with the host copied. -/
def copyHost (out : ParsedUrl) (rest : List UInt8) : ParsedUrl :=
  { out with
    host := out.host.map fun host =>
      (host.strncpy rest (hostOf rest).length).store (hostOf rest).length 0 }

variable (nhost npath : ℕ) (portnum : UInt16) (out : ParsedUrl)

/-- The host, the port and the path by the parts of the rest. What `strtoul` leaves of the
text of a port is not a path. -/
theorem parseHost_eq (rest : List UInt8) :
    parseHost nhost npath portnum out rest =
      if nhost ≤ (hostOf rest).length ∧ out.host.isSome then out
      else
        match portOf rest with
        | none => parsePath npath { copyHost out rest with port := portnum } (pathOf rest)
        | some text =>
          if maxPortspec < text.length - (strtoul text).2.length then copyHost out rest
          else if (strtoul text).2 = [] then
            parsePath npath { copyHost out rest with port := UInt16.ofNat (strtoul text).1 }
              (pathOf rest)
          else { copyHost out rest with port := UInt16.ofNat (strtoul text).1 } := by
  unfold parseHost
  apply ite_congr rfl (fun _ => rfl)
  intro _
  cases hport : portOf rest with
  | none =>
      simp only [portPart_of_none portnum hport, if_neg (pathOf_formed rest)]
      rfl
  | some text =>
      simp only [portPart_of_some portnum hport]
      by_cases hlong : maxPortspec < text.length - (strtoul text).2.length
      · simp only [if_pos hlong]
        rfl
      · simp only [if_neg hlong]
        cases hleft : (strtoul text).2 with
        | nil =>
            simp only [List.nil_append, if_neg (pathOf_formed rest), if_true]
            rfl
        | cons c left =>
            have hc : c ≠ 47 := by
              rintro rfl
              apply slash_not_mem_portOf hport
              exact (strtoul_suffix text).subset (hleft ▸ List.mem_cons_self)
            have hpath : (c :: left ++ pathOf rest).head? ≠ some 47 ∧
                c :: left ++ pathOf rest ≠ [] := by simp [hc]
            simp only [if_pos hpath, List.cons_ne_nil, if_false]
            rfl

/-- The port that is stored. -/
def portRead (portnum : UInt16) (rest : List UInt8) : UInt16 :=
  match portOf rest with
  | none => portnum
  | some text => UInt16.ofNat (strtoul text).1

/-- The ends of the second half of `butil_parse_url`, for a scheme with a host. -/
inductive HostOutcome (nhost npath : ℕ) (portnum : UInt16) (out : ParsedUrl) (rest : List UInt8) :
    ParsedUrl → Prop
  | long : nhost ≤ (hostOf rest).length ∧ out.host.isSome →
      HostOutcome nhost npath portnum out rest out
  | refused {text : List UInt8} (port : UInt16) :
      ¬ (nhost ≤ (hostOf rest).length ∧ out.host.isSome) → portOf rest = some text →
      ¬ PortRead text →
      HostOutcome nhost npath portnum out rest { copyHost out rest with port := port }
  | read : ¬ (nhost ≤ (hostOf rest).length ∧ out.host.isSome) →
      (∀ text ∈ portOf rest, PortRead text) →
      HostOutcome nhost npath portnum out rest
        (parsePath npath { copyHost out rest with port := portRead portnum rest } (pathOf rest))

/-- **What becomes of the rest of a URL** with a host. -/
theorem parseHost_outcome (rest : List UInt8) :
    HostOutcome nhost npath portnum out rest (parseHost nhost npath portnum out rest) := by
  rw [parseHost_eq]
  by_cases hlong : nhost ≤ (hostOf rest).length ∧ out.host.isSome
  · rw [if_pos hlong]
    exact .long hlong
  · rw [if_neg hlong]
    have hread := @HostOutcome.read nhost npath portnum out rest hlong
    unfold portRead at hread
    cases hport : portOf rest with
    | none =>
        simp only [hport] at hread
        exact hread fun text htext => by cases htext
    | some text =>
        simp only [hport] at hread
        dsimp only
        split_ifs with hmany hleft
        · refine .refused out.port hlong hport fun hread => ?_
          have hshort := hread.1
          omega
        · rw [hleft, List.length_nil, Nat.sub_zero, not_lt] at hmany
          apply hread
          rintro _ ⟨⟩
          exact portRead_iff.mpr ⟨hmany, hleft⟩
        · exact .refused _ hlong hport fun hread => hleft (portRead_iff.mp hread).2

/-- A host that fits and a text that is read are read. -/
theorem parseHost_of_read {rest : List UInt8}
    (hfits : ¬ (nhost ≤ (hostOf rest).length ∧ out.host.isSome))
    (hread : ∀ text ∈ portOf rest, PortRead text) :
    parseHost nhost npath portnum out rest =
      parsePath npath { copyHost out rest with port := portRead portnum rest } (pathOf rest) := by
  have houtcome := parseHost_outcome nhost npath portnum out rest
  generalize parseHost nhost npath portnum out rest = out' at houtcome
  cases houtcome with
  | long hlong => exact absurd hlong hfits
  | refused port _ hport hrefused => exact absurd (hread _ hport) hrefused
  | read _ _ => rfl

/-- The port does not depend on the path. -/
theorem parseHost_port {rest rest' : List UInt8} (hhost : hostOf rest = hostOf rest')
    (hport : portOf rest = portOf rest') :
    (parseHost nhost npath portnum out rest).port =
      (parseHost nhost npath portnum out rest').port := by
  have hpath : ∀ (out : ParsedUrl) (ps : List UInt8), (parsePath npath out ps).port = out.port :=
    fun out ps => (parsePath_keeps npath out ps).2.2.1
  rw [parseHost_eq, parseHost_eq, hhost, hport]
  split_ifs
  · rfl
  · cases portOf rest' with
    | none => simp only [hpath]
    | some text =>
        dsimp only
        split_ifs
        · rfl
        · simp only [hpath]
        · rfl

end Host

/-! ## A call -/

section Call

variable (users : UserSchemes) {url name rest : List UInt8} (host : Option Buffer) (nhost : ℕ)
  (path : Option Buffer) (npath : ℕ) (schemestr : Buffer)

/-- The record before the URL is looked at. -/
def started : ParsedUrl where
  result := -1
  scheme := .http
  host := host.map fun host => host.store 0 0
  port := 80
  path := path.map fun path => path.store 0 0
  schemestr := schemestr

/-- The record with the name of the scheme copied. -/
def copyName (name : List UInt8) : ParsedUrl :=
  { started host path schemestr with
    schemestr := (schemestr.strncpy name name.length).store name.length 0 }

/-- A call depends on the parts of the string and on nothing else of it. -/
theorem butilParseUrl_of_split (h : SplitUrl url name rest) :
    butilParseUrl users (some url) host nhost path npath schemestr =
      if maxUrlScheme ≤ name.length then started host path schemestr
      else
        match butilSchemeFromName users name with
        | none => copyName host path schemestr name
        | some scheme =>
          if scheme = .file then
            parsePath npath { copyName host path schemestr name with scheme := scheme } rest
          else
            parseHost nhost npath (defaultPort scheme)
              { copyName host path schemestr name with scheme := scheme } rest := by
  obtain ⟨ps, hpart, hname⟩ := schemePart_of_split h
  have hcopy : schemestr.strncpy ps name.length = schemestr.strncpy name name.length := by
    rw [← Buffer.strncpy_take, hname]
  unfold butilParseUrl
  simp only [hpart, hname, hcopy]
  rfl

/-- The ends of a call, by the parts of the string. -/
inductive ParseOutcome (name rest : List UInt8) : ParsedUrl → Prop
  | long : maxUrlScheme ≤ name.length → ParseOutcome name rest (started host path schemestr)
  | unknown : name.length < maxUrlScheme → butilSchemeFromName users name = none →
      ParseOutcome name rest (copyName host path schemestr name)
  | file : Known users name .file →
      ParseOutcome name rest
        (parsePath npath { copyName host path schemestr name with scheme := .file } rest)
  | host {scheme : ButilUrlScheme} {out : ParsedUrl} : Known users name scheme → scheme ≠ .file →
      HostOutcome nhost npath (defaultPort scheme)
        { copyName host path schemestr name with scheme := scheme } rest out →
      ParseOutcome name rest out

/-- **What becomes of a URL.** -/
theorem butilParseUrl_outcome (h : SplitUrl url name rest) :
    ParseOutcome users host nhost path npath schemestr name rest
      (butilParseUrl users (some url) host nhost path npath schemestr) := by
  rw [butilParseUrl_of_split users host nhost path npath schemestr h]
  by_cases hlong : maxUrlScheme ≤ name.length
  · rw [if_pos hlong]
    exact .long hlong
  · rw [if_neg hlong]
    cases hname : butilSchemeFromName users name with
    | none => exact .unknown (not_le.mp hlong) hname
    | some scheme =>
        dsimp only
        split_ifs with hfile
        · subst hfile
          exact .file ⟨not_le.mp hlong, hname⟩
        · exact .host ⟨not_le.mp hlong, hname⟩ hfile (parseHost_outcome nhost npath _ _ rest)

/-- Of a URL of the scheme `file` all is path. -/
theorem butilParseUrl_of_file (h : SplitUrl url name rest) (hknown : Known users name .file) :
    butilParseUrl users (some url) host nhost path npath schemestr =
      parsePath npath { copyName host path schemestr name with scheme := .file } rest := by
  rw [butilParseUrl_of_split users host nhost path npath schemestr h,
    if_neg (Nat.not_le.mpr hknown.1), hknown.2]
  rfl

/-- A URL with a host, by its parts. -/
theorem butilParseUrl_of_host {scheme : ButilUrlScheme} (h : SplitUrl url name rest)
    (hknown : Known users name scheme) (hfile : scheme ≠ .file) :
    butilParseUrl users (some url) host nhost path npath schemestr =
      parseHost nhost npath (defaultPort scheme)
        { copyName host path schemestr name with scheme := scheme } rest := by
  rw [butilParseUrl_of_split users host nhost path npath schemestr h,
    if_neg (Nat.not_le.mpr hknown.1), hknown.2]
  exact if_neg hfile

/-- A call that succeeds has come to the path. -/
theorem path_reached_of_result {out : ParsedUrl}
    (houtcome : ParseOutcome users host nhost path npath schemestr name rest out)
    (hresult : out.result = 0) :
    ∃ copied ps, out = parsePath npath copied ps ∧ copied.result = -1 ∧
      copied.path = path.map (fun path => path.store 0 0) ∧ ps <:+ rest ∧
      Known users name copied.scheme ∧
      (copied.scheme ≠ .file → (∀ text ∈ portOf rest, PortRead text) ∧
        copied.port = portRead (defaultPort copied.scheme) rest) := by
  have hfailed : (-1 : ℤ) ≠ 0 := by simp
  cases houtcome with
  | long _ => exact absurd hresult hfailed
  | unknown _ _ => exact absurd hresult hfailed
  | file hknown =>
      exact ⟨_, rest, rfl, rfl, rfl, List.suffix_rfl, hknown, fun hfile => absurd rfl hfile⟩
  | host hknown _ houtcome =>
      cases houtcome with
      | long _ => exact absurd hresult hfailed
      | refused _ _ _ _ => exact absurd hresult hfailed
      | read _ hread =>
          have hsuffix : pathOf rest <:+ rest := calc
            pathOf rest <:+ rest.dropWhile isHost := List.dropWhile_suffix _
            _ <:+ rest := List.dropWhile_suffix _
          exact ⟨_, pathOf rest, rfl, rfl, rfl, hsuffix, hknown, fun _ => ⟨hread, rfl⟩⟩

/-- A call that succeeds has found the scheme by its name. -/
theorem known_of_result {out : ParsedUrl}
    (houtcome : ParseOutcome users host nhost path npath schemestr name rest out)
    (hresult : out.result = 0) : Known users name out.scheme := by
  obtain ⟨copied, ps, rfl, -, -, -, hknown, -⟩ :=
    path_reached_of_result users host nhost path npath schemestr houtcome hresult
  rw [(parsePath_keeps npath copied ps).1]
  exact hknown

/-- A call that succeeds has copied the end of the string, or a `/`. -/
theorem path_of_result {buffer : Buffer} {out : ParsedUrl}
    (houtcome : ParseOutcome users host nhost (some buffer) npath schemestr name rest out)
    (hresult : out.result = 0) :
    ∃ ps buffer', ps <:+ rest ∧ out.path = some buffer' ∧ buffer'.Holds (copiedPath ps) := by
  obtain ⟨copied, ps, rfl, hstarted, hpath, hsuffix, -⟩ :=
    path_reached_of_result users host nhost (some buffer) npath schemestr houtcome hresult
  by_cases hlong : npath ≤ ps.length ∧ copied.path.isSome
  · rw [parsePath_of_long hlong, hstarted] at hresult
    cases hresult
  · rw [parsePath_of_fits hlong, hpath]
    exact ⟨ps, _, hsuffix, rfl, (buffer.store 0 0).holds_copy (copiedPath ps)⟩

end Call

end SmbProxy.Analysis
