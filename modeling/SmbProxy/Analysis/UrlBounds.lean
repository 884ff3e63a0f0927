import SmbProxy.Analysis.UrlOutcomes

/-!
# `butil_parse_url` and its buffers

Every exit is inside the buffers, since each part is measured before it is copied
(`HalfParsed`), with one exception: an empty path is measured as 0 bytes and then replaced by
`/`, so that a buffer of a single byte gets a second one (`not_inBuffers_of_empty`).
-/

set_option autoImplicit false

namespace SmbProxy.Analysis

open SmbProxy.Library SmbProxy.Model SmbProxy.Interface

/-! ## One buffer -/

section Copies

variable {buffer : Buffer} {s : List UInt8} {n size : ℕ}

/-- A copy that fits with its NUL stays in the buffer. -/
theorem stored_copy_lt (hstored : ∀ i ∈ buffer.stored, i < size) (hn : n < size) :
    ∀ i ∈ ((buffer.strncpy s n).store n 0).stored, i < size := by
  intro i hi
  cases List.mem_cons.mp hi with
  | inl heq => exact heq ▸ hn
  | inr hmem =>
      cases (buffer.mem_stored_strncpy s n i).mp hmem with
      | inl hlt => exact Nat.lt_trans hlt hn
      | inr hbefore => exact hstored i hbefore

/-- A cell holds what has been stored there. -/
theorem cells_store (buffer : Buffer) (i : ℕ) (c : UInt8) : (buffer.store i c).cells i = c :=
  Function.update_self _ _ _

end Copies

/-! ## Up to the path -/

section Bounds

variable {b : UrlBuffers} {out : ParsedUrl} {name rest ps : List UInt8}

/-- A call before it comes to the path: inside the buffers, with a terminated host. -/
structure HalfParsed (b : UrlBuffers) (out : ParsedUrl) : Prop where
  result : out.result = -1
  host : ∃ buffer, out.host = some buffer ∧ (∀ i ∈ buffer.stored, i < b.nhost) ∧
    ∃ i < b.nhost, buffer.cells i = 0
  path : ∃ buffer, out.path = some buffer ∧ ∀ i ∈ buffer.stored, i < b.npath
  schemestr : ∀ i ∈ out.schemestr.stored, i < maxUrlScheme

/-- The call starts within its buffers. -/
theorem halfParsed_started (hb : b.Untouched) (hnhost : 1 ≤ b.nhost) (hnpath : 1 ≤ b.npath) :
    HalfParsed b (started (some b.host) (some b.path) b.schemestr) := by
  obtain ⟨hhost, hpath, hschemestr⟩ := hb
  have hfirst : ∀ {buffer : Buffer} {size : ℕ}, buffer.stored = [] → 1 ≤ size →
      ∀ i ∈ (buffer.store 0 0).stored, i < size := by
    intro buffer size hstored hsize i hi
    show i < size
    rw [show (buffer.store 0 0).stored = [0] by rw [← hstored]; rfl, List.mem_singleton] at hi
    omega
  refine ⟨rfl, ⟨_, rfl, hfirst hhost hnhost, 0, hnhost, cells_store b.host 0 0⟩,
    ⟨_, rfl, hfirst hpath hnpath⟩, ?_⟩
  intro i hi
  rw [show (started (some b.host) (some b.path) b.schemestr).schemestr.stored = [] from
    hschemestr] at hi
  cases hi

/-- What is stored through the other pointers does not matter. -/
theorem halfParsed_scheme (h : HalfParsed b out) (scheme : ButilUrlScheme) :
    HalfParsed b { out with scheme := scheme } := ⟨h.result, h.host, h.path, h.schemestr⟩

/-- The port is in no buffer. -/
theorem halfParsed_port (h : HalfParsed b out) (port : UInt16) :
    HalfParsed b { out with port := port } := ⟨h.result, h.host, h.path, h.schemestr⟩

/-- The name is stored within its buffer, and cleared. -/
theorem halfParsed_copyName (h : HalfParsed b (started (some b.host) (some b.path) b.schemestr))
    (hname : name.length < maxUrlScheme) :
    HalfParsed b (copyName (some b.host) (some b.path) b.schemestr name) :=
  ⟨rfl, h.host, h.path, stored_copy_lt h.schemestr hname⟩

/-- A host that fits is stored within its buffer. -/
theorem halfParsed_copyHost (h : HalfParsed b out) (hfits : (hostOf rest).length < b.nhost) :
    HalfParsed b (copyHost out rest) := by
  obtain ⟨buffer, hhost, hstored, -⟩ := h.host
  refine ⟨h.result, ⟨_, congrArg (Option.map _) hhost, stored_copy_lt hstored hfits, _, hfits,
    cells_store _ _ 0⟩, h.path, h.schemestr⟩

/-! ## The exits -/

/-- A call that has failed has stayed within its buffers. -/
theorem inBuffers_of_failed (h : HalfParsed b out) : InBuffers b out := by
  obtain ⟨buffer, hhost, hstored, -⟩ := h.host
  obtain ⟨buffer', hpath, hstored'⟩ := h.path
  refine ⟨?_, ?_, h.schemestr, ?_⟩
  · intro x hx
    rw [hhost] at hx
    cases hx
    exact hstored
  · intro x hx
    rw [hpath] at hx
    cases hx
    exact hstored'
  · intro hresult
    rw [h.result] at hresult
    cases hresult

/-- The path is copied inside its buffer unless it is the `/` for an empty one in a single
byte. -/
theorem inBuffers_parsePath (h : HalfParsed b out) (hroom : ¬ (b.npath = 1 ∧ ps = [])) :
    InBuffers b (parsePath b.npath out ps) := by
  by_cases hlong : b.npath ≤ ps.length ∧ out.path.isSome
  · rw [parsePath_of_long hlong]
    exact inBuffers_of_failed h
  · rw [parsePath_of_fits hlong]
    obtain ⟨buffer, hhost, hstored, i, hi, hzero⟩ := h.host
    obtain ⟨buffer', hpath, hstored'⟩ := h.path
    have hfits : (copiedPath ps).length < b.npath := by
      have hshort : ¬ b.npath ≤ ps.length := fun hle => hlong ⟨hle, by rw [hpath]; rfl⟩
      unfold copiedPath
      by_cases hempty : ps = []
      · rw [if_pos hempty]
        rw [hempty] at hshort
        show 1 < b.npath
        have hone : b.npath ≠ 1 := fun hone => hroom ⟨hone, hempty⟩
        rw [List.length_nil] at hshort
        omega
      · rw [if_neg hempty]
        omega
    have hcopied : ∀ x ∈ out.path.map fun path =>
        (path.strncpy (copiedPath ps) (copiedPath ps).length).store (copiedPath ps).length 0,
        x = (buffer'.strncpy (copiedPath ps) (copiedPath ps).length).store
          (copiedPath ps).length 0 := by
      intro x hx
      rw [hpath] at hx
      cases hx
      rfl
    refine ⟨?_, ?_, h.schemestr, fun _ => ⟨⟨buffer, hhost, i, hi, hzero⟩, ?_⟩⟩
    · intro x hx
      rw [show x = buffer from Option.some.inj (hx.symm.trans hhost)]
      exact hstored
    · intro x hx
      rw [hcopied x hx]
      exact stored_copy_lt hstored' hfits
    · exact ⟨_, congrArg (Option.map _) hpath, _, hfits, cells_store _ _ 0⟩

/-- With one byte for the path, an empty path is stored behind it. -/
theorem not_inBuffers_of_empty (hone : b.npath = 1) (h : HalfParsed b out) (hempty : ps = []) :
    ¬ InBuffers b (parsePath b.npath out ps) := by
  intro hin
  obtain ⟨buffer, hpath, -⟩ := h.path
  have hfits : ¬ (b.npath ≤ ps.length ∧ out.path.isSome) := by
    rintro ⟨hlong, -⟩
    rw [hempty, hone] at hlong
    cases hlong
  rw [parsePath_of_fits hfits, hempty] at hin
  have hlast := hin.path _ (congrArg (Option.map _) hpath) 1 List.mem_cons_self
  rw [hone] at hlast
  exact Nat.lt_irrefl 1 hlast

/-- A call that comes to an empty path stores a `/` and a NUL. -/
theorem not_inBuffers_of_emptyPath {users : UserSchemes} {url : List UInt8} (hb : b.Untouched)
    (hsize : 1 ≤ b.nhost ∧ 1 ≤ b.npath) (hone : b.npath = 1) (h : EmptyPath users b.nhost url) :
    ¬ InBuffers b (b.parse users url) := by
  obtain ⟨name, rest, scheme, hsplit, hknown, hempty⟩ := h
  have hstarted := halfParsed_started hb hsize.1 hsize.2
  have hnamed := halfParsed_scheme (halfParsed_copyName hstarted hknown.1) scheme
  unfold UrlBuffers.parse
  rcases hempty with ⟨rfl, hrest⟩ | ⟨hfile, hfits, hread, hpath⟩
  · rw [butilParseUrl_of_file users _ _ _ _ _ hsplit hknown]
    exact not_inBuffers_of_empty hone hnamed hrest
  · rw [butilParseUrl_of_host users _ _ _ _ _ hsplit hknown hfile,
      parseHost_of_read _ _ _ _ (fun hlong => Nat.not_le.mpr hfits hlong.1) hread]
    exact not_inBuffers_of_empty hone (halfParsed_port (halfParsed_copyHost hnamed hfits) _) hpath

/-- A host is measured before it is copied. -/
theorem inBuffers_of_hostOutcome {portnum : UInt16} {out' : ParsedUrl} (h : HalfParsed b out)
    (houtcome : HostOutcome b.nhost b.npath portnum out rest out')
    (hroom : ¬ (b.npath = 1 ∧ (hostOf rest).length < b.nhost ∧
      (∀ text ∈ portOf rest, PortRead text) ∧ pathOf rest = [])) : InBuffers b out' := by
  have hshort : ¬ (b.nhost ≤ (hostOf rest).length ∧ out.host.isSome) →
      (hostOf rest).length < b.nhost := by
    intro hfits
    obtain ⟨buffer, hhost, -⟩ := h.host
    exact not_le.mp fun hle => hfits ⟨hle, by rw [hhost]; rfl⟩
  cases houtcome with
  | long _ => exact inBuffers_of_failed h
  | refused port hfits _ _ =>
      exact inBuffers_of_failed (halfParsed_port (halfParsed_copyHost h (hshort hfits)) port)
  | read hfits hread =>
      apply inBuffers_parsePath (halfParsed_port (halfParsed_copyHost h (hshort hfits)) _)
      rintro ⟨hone, hpath⟩
      exact hroom ⟨hone, hshort hfits, hread, hpath⟩

/-- **`butil_parse_url` stays inside its buffers** iff the path has more than one byte of room
or is not empty. -/
theorem in_buffers_iff (users : UserSchemes) (url : List UInt8) (hb : b.Untouched)
    (hsize : 1 ≤ b.nhost ∧ 1 ≤ b.npath) :
    InBuffers b (b.parse users url) ↔ ¬ (b.npath = 1 ∧ EmptyPath users b.nhost url) := by
  constructor
  · rintro hin ⟨hone, hempty⟩
    exact not_inBuffers_of_emptyPath hb hsize hone hempty hin
  · intro hroom
    have hstarted := halfParsed_started hb hsize.1 hsize.2
    obtain ⟨name, rest, hsplit⟩ := exists_split_url url
    have houtcome :=
      butilParseUrl_outcome users (some b.host) b.nhost (some b.path) b.npath b.schemestr hsplit
    unfold UrlBuffers.parse
    generalize butilParseUrl users (some url) (some b.host) b.nhost (some b.path) b.npath
      b.schemestr = out at houtcome
    cases houtcome with
    | long _ => exact inBuffers_of_failed hstarted
    | unknown hname _ => exact inBuffers_of_failed (halfParsed_copyName hstarted hname)
    | file hknown =>
        apply inBuffers_parsePath
          (halfParsed_scheme (halfParsed_copyName hstarted hknown.1) .file)
        rintro ⟨hone, hrest⟩
        exact hroom ⟨hone, name, rest, .file, hsplit, hknown, Or.inl ⟨rfl, hrest⟩⟩
    | @host scheme _ hknown hfile houtcome =>
        apply inBuffers_of_hostOutcome
          (halfParsed_scheme (halfParsed_copyName hstarted hknown.1) scheme) houtcome
        rintro ⟨hone, hfits, hread, hpath⟩
        exact hroom ⟨hone, name, rest, scheme, hsplit, hknown,
          Or.inr ⟨hfile, hfits, hread, hpath⟩⟩

/-- `http://h` with two bytes for the host and two for the path. -/
theorem in_buffers_two :
    InBuffers ⟨⟨fun _ => 0, []⟩, 2, ⟨fun _ => 0, []⟩, 2, ⟨fun _ => 0, []⟩⟩
      (UrlBuffers.parse ⟨⟨fun _ => 0, []⟩, 2, ⟨fun _ => 0, []⟩, 2, ⟨fun _ => 0, []⟩⟩ (fun _ => [])
        (ascii ['h', 't', 't', 'p', ':', '/', '/', 'h'])) :=
  (in_buffers_iff (fun _ => []) _ ⟨rfl, rfl, rfl⟩ (by simp)).mpr (by simp)

/-- `http://h` with a byte for the path. -/
theorem not_in_buffers_one :
    ¬ InBuffers ⟨⟨fun _ => 0, []⟩, 2, ⟨fun _ => 0, []⟩, 1, ⟨fun _ => 0, []⟩⟩
      (UrlBuffers.parse ⟨⟨fun _ => 0, []⟩, 2, ⟨fun _ => 0, []⟩, 1, ⟨fun _ => 0, []⟩⟩ (fun _ => [])
        (ascii ['h', 't', 't', 'p', ':', '/', '/', 'h'])) := by
  apply not_inBuffers_of_emptyPath ⟨rfl, rfl, rfl⟩ (by simp) rfl
  refine ⟨_, ascii ['h'], .http, split_http (ascii ['h']), known_http _, Or.inr ?_⟩
  refine ⟨by simp, ?_, ?_, rfl⟩
  · exact Nat.lt_succ_self 1
  · intro text htext
    cases htext

end Bounds

end SmbProxy.Analysis
