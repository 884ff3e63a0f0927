import SmbProxy.Analysis.AcceptLoop

/-!
# Where the bytes of the clients go

`tcp_connect` closes the socket that it has opened or stores it, so it is what the hand-over
takes it for, and what it connects is the host and the port it has been given
(`dialled_cases`, `dial_of_mem`). A worker in the proxy loop has come there with a server
socket that it has dialled, and nothing is sent anywhere else (`Dials`). With what `main` makes of
its command line this takes the bytes of the clients to the server of the URL (`main_proxies`).
-/

set_option autoImplicit false

namespace SmbProxy.Analysis

open SmbProxy.Library SmbProxy.Model SmbProxy.Interface

/-! ## `tcp_connect` -/

section TcpConnect

variable (host : List UInt8) (port : UInt16) (event : DialEvent)

/-- How a `tcp_connect` ends: the socket it has opened is stored if it returns 0, and closed
otherwise. -/
inductive DialEnds (d : Dialled) : Prop
  | noSocket (hevent : d.event = .noSocket) (hopened : d.opened = none) (hdial : d.dial = none)
      (hresult : d.result ≠ 0) (hclosed : d.closed = [])
  | refused (sock : ℤ) (hevent : d.event = .refused sock) (hopened : d.opened = some sock)
      (hresult : d.result ≠ 0) (hstored : d.stored = invalidSocket) (hclosed : d.closed = [sock])
  | connected (sock : ℤ) (dial : Dial) (hevent : d.event = .connected sock)
      (hopened : d.opened = some sock) (hdial : d.dial = some dial) (hsocket : dial.socket = sock)
      (hresult : d.result = 0) (hstored : d.stored = sock) (hclosed : d.closed = [])

/-- **`tcp_connect` ends in one of these ways.** -/
theorem dialled_cases : DialEnds (tcpConnect host port event) := by
  unfold tcpConnect
  cases hsocket : event.socket with
  | none => exact .noSocket rfl rfl rfl (by simp) rfl
  | some sock =>
      dsimp only
      split_ifs
      · exact .refused sock rfl rfl (by simp) rfl rfl
      · cases haddress : event.address host with
        | none => exact .refused sock rfl rfl (by simp) rfl rfl
        | some address =>
            cases hconnect : event.connect with
            | failed => exact .refused sock rfl rfl (by simp) rfl rfl
            | connected => exact .connected sock ⟨sock, address, port⟩ rfl rfl rfl rfl rfl rfl rfl
            | wouldBlock => exact .connected sock ⟨sock, address, port⟩ rfl rfl rfl rfl rfl rfl rfl
            | inProgress => exact .connected sock ⟨sock, address, port⟩ rfl rfl rfl rfl rfl rfl rfl

/-- A `connect` is with the socket of this call, at the address of the host, and to the port. -/
theorem dial_of_mem {d : Dial} (hmem : d ∈ (tcpConnect host port event).dial.toList) :
    d.port = port ∧ event.socket.map Nat.cast = some d.socket ∧
      event.address host = some d.address := by
  unfold tcpConnect at hmem
  cases hsocket : event.socket with
  | none => simp [hsocket] at hmem
  | some sock =>
      simp only [hsocket] at hmem
      split_ifs at hmem
      · simp at hmem
      · cases haddress : event.address host with
        | none => simp [haddress] at hmem
        | some address =>
            have hd : d = ⟨sock, address, port⟩ := by
              cases hconnect : event.connect <;> simpa [haddress, hconnect] using hmem
            rw [hd]
            exact ⟨rfl, rfl, rfl⟩

end TcpConnect

/-! ## The sockets of the workers -/

section Dials

variable {packet : Bool → (ℤ → UInt8) → ℤ → ℤ} {v : Serving} {inputs : List ProgramInput}
  {p : Program} {size : ℤ}

/-- Between `tcp_connect` and the end of the proxy loop. -/
def online : WorkerPc → Bool
  | .testServer => true
  | .proxy => true
  | _ => false

/-- **The invariant of the server sockets.** -/
structure Dials (inputs : List ProgramInput) (v : Serving) (p : Program) : Prop where
  known : ∀ d ∈ p.dials,
    DialsTo inputs (v.globals.serverHost.text maxSmbUrl) v.globals.serverPort d
  here : ∀ i, online (p.process.handover.worker i) = true →
    ∃ d ∈ p.dials, d.socket = (p.process.handover.ctx i).serverSocket
  sends : ∀ i client server, .openServer i client server ∈ p.process.handover.log →
    (p.process.socket server).tx ≠ [] → ∃ d ∈ p.dials, d.socket = server

/-- A worker is online after a step of another thread only if it was so before. -/
theorem online_of_other {s : Handover} {input : HandoverInput} {i : ℕ}
    (hother : ∀ event, input ≠ .worker i event)
    (honline : online ((handoverStep s input).worker i) = true) :
    online (s.worker i) = true ∧
      ((handoverStep s input).ctx i).serverSocket = (s.ctx i).serverSocket := by
  refine ⟨?_, server_of_other s hother⟩
  cases worker_of_other s hother with
  | inl hsame => exact hsame ▸ honline
  | inr hwait =>
      rw [hwait] at honline
      cases honline

/-- A worker comes online from `tcp_connect`. -/
theorem online_of_successors {pc : WorkerPc} :
    ∀ pc' ∈ successors pc, online pc' = true → pc = .connecting ∨ online pc = true := by
  cases pc <;> decide

/-- The next instruction of a worker, but for the end of `tcp_connect`, brings it online with the
socket it had, or not at all. -/
theorem online_of_run {s : Handover} {i : ℕ}
    (honline : online ((s.workerStep i .run).worker i) = true) :
    online (s.worker i) = true ∧
      ((s.workerStep i .run).ctx i).serverSocket = (s.ctx i).serverSocket := by
  rcases online_of_successors _ (workerStep_moves s i .run) honline with hpc | hbefore
  · -- In `tcp_connect` it waits for the system.
    have hsame : s.workerStep i .run = s := by
      unfold Handover.workerStep
      simp only [hpc]
    rw [hsame, hpc] at honline
    cases honline
  · refine ⟨hbefore, ?_⟩
    unfold Handover.workerStep
    cases hpc : s.worker i <;> rw [hpc] at hbefore <;> cases hbefore
    dsimp only
    split_ifs <;> rfl

/-- More calls of `connect`. -/
theorem dials_append (h : Dials inputs v p) {dials : List Dial}
    (hnew : ∀ d ∈ dials,
      DialsTo inputs (v.globals.serverHost.text maxSmbUrl) v.globals.serverPort d) :
    Dials inputs v { p with dials := dials ++ p.dials } where
  known d hmem := by
    cases List.mem_append.mp hmem with
    | inl hmem => exact hnew d hmem
    | inr hmem => exact h.known d hmem
  here i hi := by
    obtain ⟨d, hmem, hd⟩ := h.here i hi
    exact ⟨d, List.mem_append_right _ hmem, hd⟩
  sends i client server hmem htx := by
    obtain ⟨d, hmem, hd⟩ := h.sends i client server hmem htx
    exact ⟨d, List.mem_append_right _ hmem, hd⟩

/-- A step of a thread outside the proxy loop, after which a worker that is online was so before or
has just dialled. -/
theorem dials_thread (hlinked : Linked (fun _ => True) Carried Exchanged size p.process)
    (h : Dials inputs v p) {input : HandoverInput} {process : Process}
    (hhandover : process.handover = handoverStep p.process.handover input)
    (hsocket : process.socket = p.process.socket) {dials : List Dial}
    (hnew : ∀ d ∈ dials, DialsTo inputs (v.globals.serverHost.text maxSmbUrl) v.globals.serverPort d)
    (honline : ∀ i, online (process.handover.worker i) = true →
      online (p.process.handover.worker i) = true ∧
          (process.handover.ctx i).serverSocket = (p.process.handover.ctx i).serverSocket ∨
        ∃ d ∈ dials, d.socket = (process.handover.ctx i).serverSocket) {accepted : List ℤ}
    {ended : Option ProgramEnd} : Dials inputs v ⟨process, accepted, dials ++ p.dials, ended⟩ where
  known := (dials_append h hnew).known
  here i hi := by
    cases honline i hi with
    | inl hbefore =>
        obtain ⟨d, hmem, hd⟩ := (dials_append h hnew).here i hbefore.1
        refine ⟨d, hmem, ?_⟩
        calc
          d.socket = (p.process.handover.ctx i).serverSocket := hd
          _ = (process.handover.ctx i).serverSocket := hbefore.2.symm
    | inr hdialled =>
        obtain ⟨d, hmem, hd⟩ := hdialled
        exact ⟨d, List.mem_append_left _ hmem, hd⟩
  sends i client server hmem htx := by
    have hmem : .openServer i client server ∈ process.handover.log := hmem
    have htx : (process.socket server).tx ≠ [] := htx
    rw [hhandover] at hmem
    rw [hsocket] at htx
    cases opened_of_step p.process.handover input hmem with
    | inl hold => exact (dials_append h hnew).sends i client server hold htx
    | inr hopened =>
        -- Nothing has been sent through a socket that is new.
        have halone := alone_of_fresh hlinked.inv hlinked.pairs hopened.2.2.2
        rw [(hlinked.silent server halone).1] at htx
        exact absurd rfl htx

/-- No call of `connect` goes anywhere else. -/
theorem dialsTo_nil : ∀ d ∈ ([] : List Dial),
    DialsTo inputs (v.globals.serverHost.text maxSmbUrl) v.globals.serverPort d :=
  fun _ hmem => absurd hmem List.not_mem_nil

/-- A step of the acceptor. -/
theorem dials_other (hlinked : Linked (fun _ => True) Carried Exchanged size p.process)
    (h : Dials inputs v p) (input : HandoverInput) (hother : ∀ i event, input ≠ .worker i event)
    (accepted : List ℤ) (ended : Option ProgramEnd) :
    Dials inputs v ⟨{ p.process with handover := handoverStep p.process.handover input }, accepted,
      p.dials, ended⟩ := by
  refine @dials_thread v inputs p size hlinked h input
    { p.process with handover := handoverStep p.process.handover input } rfl rfl [] dialsTo_nil
    (fun i hi => ?_) accepted ended
  exact Or.inl (@online_of_other p.process.handover input i (hother i) hi)

/-- A step of a worker outside the proxy loop, with the calls of `connect` in it. -/
theorem dials_worker (hlinked : Linked (fun _ => True) Carried Exchanged size p.process)
    (h : Dials inputs v p) (i : ℕ) (event : WorkerEvent) {dials : List Dial}
    (hnew : ∀ d ∈ dials, DialsTo inputs (v.globals.serverHost.text maxSmbUrl) v.globals.serverPort d)
    (honline : online ((p.process.handover.workerStep i event).worker i) = true →
      online (p.process.handover.worker i) = true ∧
          ((p.process.handover.workerStep i event).ctx i).serverSocket =
            (p.process.handover.ctx i).serverSocket ∨
        ∃ d ∈ dials, d.socket = ((p.process.handover.workerStep i event).ctx i).serverSocket) :
    Dials inputs v { p with
      process := processStep packet p.process (.worker i event)
      dials := dials ++ p.dials } := by
  show Dials inputs v { p with
    process := p.process.workerStep i event
    dials := dials ++ p.dials }
  by_cases hpc : p.process.handover.worker i = .proxy
  · have hsame : p.process.workerStep i event = p.process := if_pos hpc
    rw [hsame]
    exact dials_append h hnew
  · have hstep : (p.process.workerStep i event).handover =
          handoverStep p.process.handover (.worker i event) ∧
        (p.process.workerStep i event).socket = p.process.socket := by
      unfold Process.workerStep
      rw [if_neg hpc]
      dsimp only
      split_ifs <;> exact ⟨rfl, rfl⟩
    refine dials_thread hlinked h hstep.1 hstep.2 hnew fun j hj => ?_
    rw [hstep.1] at hj ⊢
    by_cases hji : j = i
    · subst hji
      exact honline hj
    · obtain ⟨hctx, hworker⟩ := (workerStep_frame p.process.handover i event).ctx j hji
      left
      rw [show handoverStep p.process.handover (.worker i event) =
        p.process.handover.workerStep i event from rfl] at hj ⊢
      rw [hworker] at hj
      rw [hctx]
      exact ⟨hj, rfl⟩

/-- A worker that comes out of `tcp_connect`. -/
theorem dials_connect (hlinked : Linked (fun _ => True) Carried Exchanged size p.process)
    (h : Dials inputs v p) {i : ℕ} {event : DialEvent} (hinput : .connect i event ∈ inputs)
    (hpc : p.process.handover.worker i = .connecting)
    (hfresh : ∀ sock ∈ (dialled v event).opened, p.process.handover.Fresh sock) :
    Dials inputs v { p with
      process := processStep packet p.process (.worker i (.connect (dialled v event).event))
      dials := (dialled v event).dial.toList ++ p.dials } := by
  refine dials_worker hlinked h i _ (fun d hmem => ?_) fun honline => Or.inr ?_
  · obtain ⟨hport, hsocket, haddress⟩ := dial_of_mem _ _ event hmem
    exact ⟨hport, i, event, hinput, hsocket, haddress⟩
  · have hstep : p.process.handover.workerStep i (.connect (dialled v event).event) =
        p.process.handover.connectStep i (dialled v event).event := by
      unfold Handover.workerStep
      simp only [hpc]
    rw [hstep] at honline ⊢
    cases dialled_cases (v.globals.serverHost.text maxSmbUrl) v.globals.serverPort event with
    | noSocket hevent =>
        rw [show (dialled v event).event = .noSocket from hevent] at honline
        simp [Handover.connectStep, online] at honline
    | refused sock hevent hopened =>
        have hgo := hfresh sock hopened
        rw [show (dialled v event).event = .refused sock from hevent] at honline
        simp [Handover.connectStep, hgo, online] at honline
    | connected sock dial hevent hopened hdial hsocket =>
        have hgo := hfresh sock hopened
        rw [show (dialled v event).event = .connected sock from hevent]
        refine ⟨dial, ?_, ?_⟩
        · rw [show (dialled v event).dial = some dial from hdial]
          exact List.mem_cons_self
        · rw [hsocket]
          simp [Handover.connectStep, hgo, Handover.update, Handover.workerAt]

/-- A step of a proxy loop sends through its own sockets only. -/
theorem dials_loop (hlinked : Linked (fun _ => True) Carried Exchanged size p.process)
    (h : Dials inputs v p) (i : ℕ) (event : LoopEvent) :
    Dials inputs v { p with process := processStep packet p.process (.loop i event) } := by
  show Dials inputs v { p with process := p.process.loopStep packet i event }
  by_cases hpc : p.process.handover.worker i = .proxy
  case neg =>
    have hsame : p.process.loopStep packet i event = p.process := if_neg hpc
    rw [hsame]
    exact h
  have hpair := paired_of_proxy hlinked.inv hlinked.pairs hpc
  have hhere := h.here i (by rw [hpc]; rfl)
  obtain ⟨worker, hstep, hothers, -⟩ := @loopStep_eq packet p.process i hpc event
  rw [hstep]
  generalize step packet (p.process.conn i) event.input = c
  have hserver : ∀ j, ((p.process.put i c).handover.ctx j).serverSocket =
      (p.process.handover.ctx j).serverSocket := by
    intro j
    by_cases hji : j = i
    · subst hji
      exact congrFun (put_ctx_socket p.process j c) .server
    · rw [put_ctx_of_ne p.process c hji]
  refine ⟨h.known, fun j hj => ?_, fun j client server hmem htx => ?_⟩
  · show ∃ d ∈ p.dials, d.socket = ((p.process.put i c).handover.ctx j).serverSocket
    rw [hserver j]
    by_cases hji : j = i
    · subst hji
      exact hhere
    · exact h.here j (hothers j hji ▸ hj)
  · have hmem : .openServer j client server ∈ p.process.handover.log := hmem
    have htx : ((p.process.put i c).socket server).tx ≠ [] := htx
    cases pairs_apart hlinked.inv hlinked.pairs hpair hmem with
    | inl hsame =>
        rw [hsame.2]
        exact hhere
    | inr hapart =>
        rw [(put_socket_of_ne p.process i c hapart.2.2.1 hapart.2.2.2).1] at htx
        exact h.sends j client server hmem htx

/-- **Every step keeps what is known of the server sockets.** -/
theorem dials_step (hlinked : Linked (fun _ => True) Carried Exchanged size p.process)
    (h : Dials inputs v p) {input : ProgramInput} (hinput : input ∈ inputs) :
    Dials inputs v (programStep packet v p input) := by
  have hsteps := steps_programStep packet v p input
  generalize programStep packet v p input = p' at hsteps ⊢
  cases hsteps with
  | stays => exact h
  | fails event hended hidle hresult => exact ⟨h.known, h.here, h.sends⟩
  | arrives client hended hidle hfresh =>
      exact dials_other hlinked h (.arrive client v.passthrough) (fun _ _ heq => by cases heq) _ _
  | starts create pc client passthrough i hended hpc =>
      exact dials_other hlinked h (.acceptor create) (fun _ _ heq => by cases heq) _ _
  | connects i event hended hpc hfresh => exact dials_connect hlinked h hinput hpc hfresh
  | works i hended =>
      exact dials_worker hlinked h i .run dialsTo_nil fun hi => Or.inl (online_of_run hi)
  | loops i event hended => exact dials_loop hlinked h i event
  | signalled i hended hsending => exact ⟨h.known, h.here, h.sends⟩

/-! ## Whole runs -/

/-- What a proxy loop keeps, and the server sockets, in every run. -/
theorem run_dials (packet : Bool → (ℤ → UInt8) → ℤ → ℤ) (v : Serving) {size : ℤ} (hsize : 1 ≤ size)
    (maxConnections : ℕ) (clientData serverData : ℕ → ℤ → UInt8) (locals : ℕ → ProxyLocals)
    (inputs : List ProgramInput) :
    let p := run (programStep packet v)
      (Program.init (Process.init maxConnections size clientData serverData locals)) inputs
    Linked (fun _ => True) Carried Exchanged size p.process ∧ Dials inputs v p := by
  have hrule : ConnRule packet (fun _ => True) AnyEvent Carried Exchanged :=
    carried_rule packet trivial
  refine run_invariant_of (fun _ input => input ∈ inputs)
    (fun p => Linked (fun _ => True) Carried Exchanged size p.process ∧ Dials inputs v p)
    (fun p input h hinput => ⟨?_, dials_step h.1 h.2 hinput⟩) ⟨?_, ?_⟩
    (along_of_forall (fun input hmem _ => hmem) _)
  · obtain ⟨steps, -, hsteps⟩ := programStep_refines packet v AnyEvent p input (feeds_any input p)
    rw [hsteps]
    exact run_invariant_of (Permitted (fun _ => True) AnyEvent)
      (Linked (fun _ => True) Carried Exchanged size)
      (fun _ _ h hpermitted => linked_step hrule hsize h hpermitted) h.1
      (permitted_of_modes fun _ _ _ => trivial)
  · exact linked_init hrule maxConnections size clientData serverData locals
  · exact ⟨fun d hmem => absurd hmem List.not_mem_nil, fun i hi => (by cases hi),
      fun i client server hmem => absurd hmem List.not_mem_nil⟩

/-- What `main` has set up for `-p 80 smb://h`. -/
def smbServing : Serving :=
  ((main wideEnvironment 6 smbArgs).bind Sum.getRight?).getD emptyServing

/-- `main` comes to its accept loop with it. -/
theorem serves_smb : Serves wideEnvironment smbArgs smbServing := by
  have hserves : ((main wideEnvironment 6 smbArgs).bind Sum.getRight?).isSome = true := by
    decide +kernel
  obtain ⟨v, hv⟩ := Option.isSome_iff_exists.mp hserves
  obtain ⟨out, hmain, hout⟩ := Option.bind_eq_some_iff.mp hv
  refine ⟨6, ?_⟩
  rw [hmain, Sum.getRight?_eq_some_iff.mp hout, smbServing, hv]
  rfl

end Dials

end SmbProxy.Analysis
