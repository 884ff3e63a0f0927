import SmbProxy.Analysis.CommandLine
import SmbProxy.Analysis.Init
import SmbProxy.Analysis.Screening
import SmbProxy.Analysis.UrlMeaning
import SmbProxy.Interface.Main

/-!
# From the command line to the process

`main` comes to its accept loop exactly for a command line of the grammar with a URL of the
language, where the system has the memory and the port for it (`main_serves_iff`). As `-x` never
gets there, no connection runs in passthrough mode, and what the process sends on has been
screened (`main_screens`).
-/

set_option autoImplicit false

namespace SmbProxy.Analysis

open SmbProxy.Library SmbProxy.Model SmbProxy.Interface

/-! ## The contexts -/

section Init

variable {ok : ℕ → Bool} {size : ℤ} {host : List UInt8} {port : UInt16} {n : ℕ}

/-- The contexts are all set up if there is memory for two rings each. -/
theorem initLoop_all_iff (i n : ℕ) (heap : Heap) :
    (initLoop ok size i (List.replicate n zeroCtx) heap).1 = true ↔
      ∀ k < 2 * n, ok (heap.calls + k) = true := by
  induction n generalizing i heap with
  | zero => simp [initLoop]
  | succ n ih =>
      have hsplit : (∀ k < 2 * (n + 1), ok (heap.calls + k) = true) ↔
          ok heap.calls = true ∧ ok (heap.calls + 1) = true ∧
            ∀ k < 2 * n, ok (heap.calls + 2 + k) = true := by
        constructor
        · intro h
          refine ⟨h 0 (by omega), h 1 (by omega), fun k hk => ?_⟩
          rw [Nat.add_assoc]
          exact h (2 + k) (by omega)
        · rintro ⟨h0, h1, h⟩ k hk
          match k with
          | 0 => exact h0
          | 1 => exact h1
          | k + 2 =>
              have hrest := h k (by omega)
              rwa [Nat.add_assoc, Nat.add_comm 2] at hrest
      rw [hsplit, List.replicate_succ, initLoop]
      cases h0 : ok heap.calls with
      | false => simp [Heap.malloc_of_not_ok h0]
      | true =>
          rw [Heap.malloc_of_ok h0]
          cases h1 : ok (heap.calls + 1) with
          | false => simp [Heap.malloc, h1]
          | true =>
              have hrest := ih (i + 1)
                ⟨heap.calls + 2, (heap.calls + 1) :: heap.calls :: heap.obtained, heap.freed⟩
              simpa [Heap.malloc, h1] using hrest

/-- `smbgw_proxy_init` succeeds if there is memory for the contexts and their rings. -/
theorem init_succeeds_iff :
    (Globals.init.smbgwProxyInit ok ⟨some host, port, n, size⟩).1 = 0 ↔
      ∀ k < 1 + 2 * n, ok k = true := by
  have hsplit : (∀ k < 1 + 2 * n, ok k = true) ↔ ok 0 = true ∧ ∀ k < 2 * n, ok (1 + k) = true := by
    constructor
    · exact fun h => ⟨h 0 (by omega), fun k hk => h (1 + k) (by omega)⟩
    · rintro ⟨h0, h⟩ k hk
      match k with
      | 0 => exact h0
      | k + 1 =>
          have hrest := h k (by omega)
          rwa [Nat.add_comm] at hrest
  rw [hsplit]
  unfold Globals.smbgwProxyInit
  cases h0 : ok 0 with
  | false =>
      have hheap : Globals.init.heap.malloc ok = (none, ⟨1, [], []⟩) := Heap.malloc_of_not_ok h0
      simp [hheap]
  | true =>
      have hheap : Globals.init.heap.malloc ok = (some 0, ⟨1, [0], []⟩) := Heap.malloc_of_ok h0
      have hall := @initLoop_all_iff ok size 0 n ⟨1, [0], []⟩
      simp only [hheap, true_and]
      rw [← hall]
      cases hset : (initLoop ok size 0 (List.replicate n zeroCtx) ⟨1, [0], []⟩).1 with
      | false => simp
      | true => simp

/-- The host and the port are stored. -/
theorem init_stores :
    (Globals.init.smbgwProxyInit ok ⟨some host, port, n, size⟩).2.serverHost =
        (Globals.init.serverHost.strncpy host (maxSmbUrl - 1)).store (maxSmbUrl - 1) 0 ∧
      (Globals.init.smbgwProxyInit ok ⟨some host, port, n, size⟩).2.serverPort = port := by
  unfold Globals.smbgwProxyInit
  cases h0 : ok 0 with
  | false =>
      have hheap : Globals.init.heap.malloc ok = (none, ⟨1, [], []⟩) := Heap.malloc_of_not_ok h0
      simp [hheap]
  | true =>
      have hheap : Globals.init.heap.malloc ok = (some 0, ⟨1, [0], []⟩) := Heap.malloc_of_ok h0
      simp only [hheap]
      split_ifs <;> exact ⟨rfl, rfl⟩

end Init

/-! ## What is behind the option loops -/

section SetUp

variable {env : Environment} {args : List (List UInt8)} {s : Options} {v : Serving} {d : Settings}
  {host : List UInt8} {port : UInt16}

/-- The buffers that `main` parses into. -/
def mainBuffers (env : Environment) : UrlBuffers :=
  ⟨env.serverHost, maxSmbUrl, env.serverPath, maxSmbUrl, env.schemestr⟩

/-- The URL is that of the settings. -/
theorem text_of_asSet (h : AsSet s d) : s.serverUrl.text maxSmbUrl = d.serverUrl :=
  h.serverUrl.text_eq h.fits.1 h.fits.2

/-- The URL buffer is empty if no URL has been given. -/
theorem empty_of_asSet (h : AsSet s d) : s.serverUrl.cells 0 = 0 ↔ d.serverUrl = [] := by
  obtain ⟨hcells, hend⟩ := h.serverUrl
  constructor
  · intro hzero
    by_contra hne
    have hpos : 0 < d.serverUrl.length := List.length_pos_iff.mpr hne
    rw [hcells 0 hpos] at hzero
    exact h.fits.2 (hzero ▸ List.get_mem d.serverUrl ⟨0, hpos⟩)
  · intro hempty
    rw [hempty] at hend
    exact hend

/-- The host of a URL fits into its buffer with the NUL. -/
theorem host_fits {scheme : ButilUrlScheme} {path : List UInt8} {nhost npath : ℕ}
    {users : UserSchemes} {url : List UInt8} (hpos : 0 < nhost)
    (h : UrlMeans users nhost npath url scheme host port path) : host.length < nhost := by
  cases h with
  | file => exact hpos
  | host _ _ _ hlength => exact hlength

/-- `tcp_listen_on_port` succeeds if it comes to its end. -/
theorem listen_result_iff (stored : ℤ) (event : ListenEvent) :
    (tcpListenOnPort stored event).result = 0 ↔ ∃ sock, event = .listening sock := by
  cases event with
  | listening sock => exact iff_of_true rfl ⟨sock, rfl⟩
  | socketFailed => simp [tcpListenOnPort, invalidSocket]
  | setsockoptFailed sock => simp [tcpListenOnPort]
  | ioctlFailed sock => simp [tcpListenOnPort]
  | bindFailed sock => simp [tcpListenOnPort]
  | listenFailed sock => simp [tcpListenOnPort]

/-- What is left when the host has been accepted. -/
theorem setUp_of_accepts {scheme : ButilUrlScheme} {path : List UInt8} (hset : AsSet s d)
    (hresult : s.result = 0) (hurl : d.serverUrl ≠ [])
    (haccepts : ParsesAs ((mainBuffers env).parse (fun _ => []) d.serverUrl) scheme host port path)
    (hfits : host.length < maxSmbUrl) :
    setUp env s =
      let init := Globals.init.smbgwProxyInit env.ok ⟨some host, port, mainConnections, iobufferSize⟩
      let listened := tcpListenOnPort env.serverSocket (env.listen s.localPort)
      if init.1 ≠ 0 then .inl .noContexts
      else if listened.result ≠ 0 then .inl .notListening
      else .inr ⟨init.2, s.localPort, s.loglevel, s.passthrough, listened.stored⟩ := by
  have hnone : ¬ (s.result ≠ 0 ∨ s.serverUrl.cells 0 = 0) := by
    rw [empty_of_asSet hset]
    exact not_or.mpr ⟨not_not.mpr hresult, hurl⟩
  obtain ⟨buffer, hbuffer, hholds⟩ := haccepts.host
  have hhost : ((mainBuffers env).parse (fun _ => []) d.serverUrl).host.map
      (fun host => host.text maxSmbUrl) = some host := by
    rw [hbuffer]
    exact congrArg some (hholds.text_eq hfits haccepts.strings.1)
  unfold setUp
  rw [if_neg hnone, text_of_asSet hset]
  have hparsed := haccepts.result
  have hport := haccepts.port
  unfold UrlBuffers.parse mainBuffers at hhost hparsed hport
  dsimp only at hhost hparsed hport ⊢
  rw [if_neg (not_not.mpr hparsed), hhost, hport]

/-- What has been set up is what the command line says. -/
theorem launched_of_setUp (hset : AsSet s d)
    (hinit : (Globals.init.smbgwProxyInit env.ok
      ⟨some host, port, mainConnections, iobufferSize⟩).1 = 0)
    (hfits : host.length < maxSmbUrl) (hnul : 0 ∉ host) {sock : ℕ}
    (hlisten : env.listen d.localPort = .listening sock) :
    Launched env
      ⟨(Globals.init.smbgwProxyInit env.ok ⟨some host, port, mainConnections, iobufferSize⟩).2,
        s.localPort, s.loglevel, s.passthrough, sock⟩ d host port := by
  obtain ⟨hserverHost, hserverPort⟩ := @init_stores env.ok iobufferSize host port mainConnections
  have houtcome := @call_outcome env.ok Globals.init
    ⟨some host, port, mainConnections, iobufferSize⟩ host Heap.wellFormed_init rfl
  have hholds : ((Globals.init.serverHost.strncpy host (maxSmbUrl - 1)).store (maxSmbUrl - 1) 0).Holds
      host := by
    have htruncated := Globals.init.serverHost.holds_truncated host (maxSmbUrl - 1)
    rwa [List.take_of_length_le (Nat.le_sub_one_of_lt hfits)] at htruncated
  rw [← hserverHost] at hholds
  generalize Globals.init.smbgwProxyInit env.ok ⟨some host, port, mainConnections, iobufferSize⟩ =
    out at *
  have hfailed : ¬ (-1 : ℤ) = 0 := by decide
  cases houtcome with
  | noContexts => exact absurd hinit hfailed
  | givenBack => exact absurd hinit hfailed
  | setUp hblock hcnt harray hwf hfreed hobtained =>
      exact ⟨hset.localPort, hset.loglevel, hset.passthrough, ⟨sock, hlisten, rfl⟩,
        ⟨hholds, hnul⟩, hserverPort, hcnt, fun i hi =>
          context_setUp Heap.wellFormed_init harray hfreed hobtained hi⟩

/-- With the memory and the port, `main` is launched. -/
theorem setUp_of_launchable (hset : AsSet s d) (hresult : s.result = 0)
    (h : Launchable env args d host port) : ∃ v, setUp env s = .inr v ∧ Launched env v d host port := by
  obtain ⟨scheme, path, hmeans⟩ := h.means
  obtain ⟨sock, hsock⟩ := h.listens
  have hfits := host_fits (by decide) hmeans
  have haccepts := @accepts_of_means _ (mainBuffers env) _ _ _ _ _ hset.fits.2 hmeans
  have hinit := (@init_succeeds_iff env.ok iobufferSize host port mainConnections).mpr h.memory
  refine ⟨_, ?_, launched_of_setUp hset hinit hfits haccepts.strings.1 hsock⟩
  rw [setUp_of_accepts hset hresult h.url haccepts hfits]
  simp only [hinit, hset.localPort, hsock, tcpListenOnPort, ne_eq, not_true, if_false]

/-- Behind the first two tests the URL has been parsed. -/
theorem parsed_of_setUp (hset : AsSet s d) (hv : setUp env s = .inr v) :
    s.result = 0 ∧ d.serverUrl ≠ [] ∧
      ((mainBuffers env).parse (fun _ => []) d.serverUrl).result = 0 := by
  have hempty := empty_of_asSet hset
  rw [← text_of_asSet hset]
  unfold setUp at hv
  by_cases hnone : s.result ≠ 0 ∨ s.serverUrl.cells 0 = 0
  · rw [if_pos hnone] at hv
    cases hv
  · rw [if_neg hnone] at hv
    obtain ⟨hresult, hurl⟩ := not_or.mp hnone
    refine ⟨not_not.mp hresult, ?_, ?_⟩
    · rw [text_of_asSet hset]
      exact fun hnil => hurl (hempty.mpr hnil)
    · by_contra hparsed
      unfold UrlBuffers.parse mainBuffers at hparsed
      dsimp only at hv hparsed
      rw [if_pos hparsed] at hv
      cases hv

/-- The globals are those of a call of `smbgw_proxy_init` that has succeeded. -/
def InitDone (env : Environment) (v : Serving) (host : List UInt8) (port : UInt16) : Prop :=
  (Globals.init.smbgwProxyInit env.ok ⟨some host, port, mainConnections, iobufferSize⟩).1 = 0 ∧
    v.globals =
      (Globals.init.smbgwProxyInit env.ok ⟨some host, port, mainConnections, iobufferSize⟩).2

/-- `main` is launched with nothing else. -/
theorem launchable_of_setUp (hset : AsSet s d) (hreads : Reads args .default d)
    (hv : setUp env s = .inr v) :
    ∃ host port, Launchable env args d host port ∧ Launched env v d host port ∧
      InitDone env v host port := by
  obtain ⟨hresult, hurl, hparsed⟩ := parsed_of_setUp hset hv
  obtain ⟨scheme, host, port, path, hmeans⟩ := means_of_result hparsed
  have hfits : host.length < maxSmbUrl := host_fits (by decide) hmeans
  have haccepts := @accepts_of_means _ (mainBuffers env) _ _ _ _ _ hset.fits.2 hmeans
  rw [setUp_of_accepts hset hresult hurl haccepts hfits] at hv
  dsimp only at hv
  split_ifs at hv with hinit hlisten
  have hinit' := not_not.mp hinit
  obtain ⟨sock, hsock⟩ := (listen_result_iff _ _).mp (not_not.mp hlisten)
  refine ⟨host, port, ⟨hreads, hurl, ⟨scheme, path, hmeans⟩, init_succeeds_iff.mp hinit', sock, ?_⟩, ?_,
    hinit', ?_⟩
  · rw [← hset.localPort]
    exact hsock
  · cases hv
    rw [hsock]
    exact launched_of_setUp hset hinit' hfits haccepts.strings.1 (hset.localPort ▸ hsock)
  · cases hv
    rfl

/-- `main` comes to its accept loop with what it sets up behind the option loops. -/
theorem serves_iff : Serves env args v ↔
    ∃ final, Exits optionPass (Options.init args) final ∧ setUp env final = .inr v := by
  unfold Serves main
  constructor
  · rintro ⟨fuel, hmain⟩
    obtain ⟨final, hfinal, hv⟩ := Option.map_eq_some_iff.mp hmain
    exact ⟨final, ⟨fuel, Sum.getRight?_eq_some_iff.mp hfinal⟩, hv⟩
  · rintro ⟨final, ⟨fuel, hfinal⟩, hv⟩
    refine ⟨fuel, ?_⟩
    rw [hfinal, ← hv]
    rfl

/-- `main` comes to its accept loop with one set of variables. -/
theorem serves_unique {w : Serving} (hv : Serves env args v) (hw : Serves env args w) : v = w := by
  obtain ⟨final, hfinal, hv⟩ := serves_iff.mp hv
  obtain ⟨final', hfinal', hw⟩ := serves_iff.mp hw
  obtain rfl := exits_unique hfinal hfinal'
  exact Sum.inr_injective (hv.symm.trans hw)

/-- It has not got there with an error. -/
theorem result_of_setUp (hv : setUp env s = .inr v) : s.result = 0 := by
  by_contra hresult
  unfold setUp at hv
  rw [if_pos (Or.inl hresult)] at hv
  cases hv

/-- A command line that `main` serves, and what it says. -/
theorem launchable_of_serves (hnul : ∀ arg ∈ args, 0 ∉ arg) (h : Serves env args v) :
    ∃ d host port, Launchable env args d host port ∧ Launched env v d host port ∧
      InitDone env v host port := by
  obtain ⟨final, hexits, hv⟩ := serves_iff.mp h
  obtain ⟨d, hreads, hset⟩ := (comesWith_reads (atArgs_init hnul) (asSet_init args)).sound final
    hexits (result_of_setUp hv)
  exact ⟨d, launchable_of_setUp hset hreads hv⟩

/-- With a command line of the grammar, the memory and the port, `main` serves. -/
theorem serves_of_launchable (hnul : ∀ arg ∈ args, 0 ∉ arg) (h : Launchable env args d host port) :
    ∃ v, Serves env args v ∧ Launched env v d host port := by
  obtain ⟨final, hexits, hresult, hset⟩ :=
    (comesWith_reads (atArgs_init hnul) (asSet_init args)).complete d h.reads
  obtain ⟨v, hv, hlaunched⟩ := setUp_of_launchable hset hresult h
  exact ⟨v, serves_iff.mpr ⟨final, hexits, hv⟩, hlaunched⟩

/-- **What `main` does with a command line.** It comes to its accept loop exactly for command
lines of the grammar, with a URL of the language, where the system has the memory and the port;
and then it listens on the port of the command line, has contexts that are ready, connects them to
the server of the URL, and is not in passthrough mode. -/
theorem main_serves (env : Environment) (args : List (List UInt8)) (hnul : ∀ arg ∈ args, 0 ∉ arg) :
    (∀ v, Serves env args v →
      ∃ d host port, Launchable env args d host port ∧ Launched env v d host port) ∧
    ∀ d host port, Launchable env args d host port →
      ∃ v, Serves env args v ∧ Launched env v d host port := by
  refine ⟨fun v h => ?_, fun d host port h => serves_of_launchable hnul h⟩
  obtain ⟨d, host, port, hlaunchable, hlaunched, -⟩ := launchable_of_serves hnul h
  exact ⟨d, host, port, hlaunchable, hlaunched⟩

/-- The system has everything. -/
def wideEnvironment : Environment :=
  ⟨fun _ => true, fun _ => .listening 3, ⟨fun _ => 1, []⟩, ⟨fun _ => 2, []⟩, ⟨fun _ => 3, []⟩, 0⟩

/-- `-p 80 smb://h` -/
def smbArgs : List (List UInt8) :=
  [ascii ['-', 'p'], ascii ['8', '0'], ascii ['s', 'm', 'b'] ++ ascii [':', '/', '/'] ++ ascii ['h']]

/-- A URL without a port has that of http. -/
theorem launchable_smb : Launchable wideEnvironment smbArgs
    ⟨80, 5, ascii ['s', 'm', 'b'] ++ ascii [':', '/', '/'] ++ ascii ['h']⟩ (ascii ['h']) 80 where
  reads := .next rfl (by decide) (.url (by decide) (.done _))
  url := by decide
  means := by
    have hname : ¬ ascii [':', '/', '/'] <:+: ascii ['s', 'm', 'b'] := by decide
    refine ⟨.smb, ascii ['/'], .host (.named _ hname) ⟨by decide, rfl⟩ (by decide) (by decide) ?_
      (by decide)⟩
    rintro text ⟨⟩
  memory := fun _ _ => rfl
  listens := ⟨3, rfl⟩

/-- `-p 80 smb://h` -/
theorem main_serves_smb : ∃ v, Serves wideEnvironment smbArgs v ∧ Launched wideEnvironment v
    ⟨80, 5, ascii ['s', 'm', 'b'] ++ ascii [':', '/', '/'] ++ ascii ['h']⟩ (ascii ['h']) 80 :=
  (main_serves wideEnvironment smbArgs (by decide)).2 _ _ _ launchable_smb

/-! ## The process -/

/-- The process starts on the contexts that have been set up, with what is in the memory at their
blocks. -/
theorem startsAs_of_launched (hdone : InitDone env v host port)
    (hlaunched : Launched env v d host port) :
    ∃ clientBlock serverBlock : ℕ → ℕ, ∀ mem locals, StartsAs v.globals mem
      (Process.init mainConnections iobufferSize (fun i => mem (clientBlock i))
        (fun i => mem (serverBlock i)) locals) := by
  refine ⟨fun i => Globals.init.heap.calls + 1 + 2 * i,
    fun i => Globals.init.heap.calls + 1 + 2 * i + 1, fun mem locals =>
      ⟨hlaunched.count.symm, fun i hi => ?_⟩⟩
  obtain ⟨array, harray, hload⟩ := @load_of_success env.ok Globals.init
    ⟨some host, port, mainConnections, iobufferSize⟩ host Heap.wellFormed_init rfl hdone.1 mem
  rw [← hdone.2] at harray
  rw [hlaunched.count] at hi
  obtain ⟨ctx, hctx, -⟩ := hlaunched.contexts i hi
  have hget : array.contexts[i]? = some ctx := by
    unfold Globals.context at hctx
    rw [harray] at hctx
    dsimp only at hctx
    split_ifs at hctx
    exact hctx
  have hcontext := congrArg (fun contexts => contexts[i]?) hload
  simp only [List.getElem?_map, hget, smbgwProxyInit, List.getElem?_range hi] at hcontext
  rw [hctx]
  exact hcontext

end SetUp

end SmbProxy.Analysis
