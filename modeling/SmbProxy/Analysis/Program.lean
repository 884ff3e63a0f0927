import SmbProxy.Analysis.Main
import SmbProxy.Interface.Program

/-!
# The program from its accept loop on

A step of the program is one of the process or none, or ends the program (`Steps`). So
its process is one in which every client comes with the mode of `main`
(`programStep_refines`), and what the accept loop adds is said about its own
variables: the clients it has accepted, what has ended the program, and the servers that have been
dialled.
-/

set_option autoImplicit false

namespace SmbProxy.Analysis

open SmbProxy.Library SmbProxy.Model SmbProxy.Interface

/-! ## One step -/

section Step

variable {packet : Bool → (ℤ → UInt8) → ℤ → ℤ} {v : Serving} {p : Program}

/-- The `tcp_connect` of the workers of this program. -/
def dialled (v : Serving) (event : DialEvent) : Dialled :=
  tcpConnect (v.globals.serverHost.text maxSmbUrl) v.globals.serverPort event

/-- **What a step of the program can be.** -/
inductive Steps (packet : Bool → (ℤ → UInt8) → ℤ → ℤ) (v : Serving) (p : Program) :
    ProgramInput → Program → Prop
  | stays (input : ProgramInput)
      (hmain : ofMain input = true → p.ended = none → p.process.handover.acceptor = .idle) :
      Steps packet v p input p
  | fails (event : AcceptEvent) (hended : p.ended = none)
      (hidle : p.process.handover.acceptor = .idle) (hresult : (tcpAcceptConnection event).1 ≠ 0) :
      Steps packet v p (.accept event) { p with ended := some (.loop .accept) }
  | arrives (client : ℕ) (hended : p.ended = none)
      (hidle : p.process.handover.acceptor = .idle) (hfresh : p.process.handover.Fresh client) :
      Steps packet v p (.accept (.accepted client))
        { p with
          process := processStep packet p.process (.arrive client v.passthrough)
          accepted := client :: p.accepted }
  | starts (create : ThreadCreate) (pc : StartPc) (client : ℤ) (passthrough : Bool) (i : ℕ)
      (hended : p.ended = none)
      (hpc : p.process.handover.acceptor = .start pc client passthrough i) :
      Steps packet v p (.acceptor create) (p.start packet pc create)
  | connects (i : ℕ) (event : DialEvent) (hended : p.ended = none)
      (hpc : p.process.handover.worker i = .connecting)
      (hfresh : ∀ sock ∈ (dialled v event).opened, p.process.handover.Fresh sock) :
      Steps packet v p (.connect i event)
        { p with
          process := processStep packet p.process (.worker i (.connect (dialled v event).event))
          dials := (dialled v event).dial.toList ++ p.dials }
  | works (i : ℕ) (hended : p.ended = none) :
      Steps packet v p (.worker i)
        { p with process := processStep packet p.process (.worker i .run) }
  | loops (i : ℕ) (event : LoopEvent) (hended : p.ended = none) :
      Steps packet v p (.loop i event)
        { p with process := processStep packet p.process (.loop i event) }
  | signalled (i : ℕ) (hended : p.ended = none) (hsending : p.Sending i) :
      Steps packet v p (.sigpipe i) { p with ended := some .sigpipe }

/-- What `tcp_accept_connection` leads to. -/
theorem steps_accept (hended : p.ended = none) (hidle : p.process.handover.acceptor = .idle)
    (event : AcceptEvent) :
    Steps packet v p (.accept event) (p.accept packet v.passthrough event) := by
  unfold Program.accept
  cases event with
  | selectFailed => exact .fails _ hended hidle (by decide)
  | timeout => exact .stays _ fun hmain => by cases hmain
  | acceptFailed => exact .fails _ hended hidle (by decide)
  | ioctlFailed sock => exact .fails _ hended hidle (by simp [tcpAcceptConnection])
  | accepted client =>
      dsimp only [tcpAcceptConnection]
      rw [if_neg (not_not.mpr rfl)]
      split_ifs with hfresh
      · exact .arrives client hended hidle hfresh.2
      · exact .stays _ fun hmain => by cases hmain

/-- **Every step is one of these.** -/
theorem steps_programStep (packet : Bool → (ℤ → UInt8) → ℤ → ℤ) (v : Serving) (p : Program)
    (input : ProgramInput) : Steps packet v p input (programStep packet v p input) := by
  unfold programStep
  by_cases hended : p.ended = none
  case neg =>
    rw [if_neg hended]
    exact .stays input fun _ hnone => absurd hnone hended
  rw [if_pos hended]
  cases input with
  | accept event =>
      cases hpc : p.process.handover.acceptor with
      | idle => exact steps_accept hended hpc event
      | start pc client passthrough i => exact .stays _ fun hmain => by cases hmain
  | acceptor create =>
      cases hpc : p.process.handover.acceptor with
      | idle => exact .stays _ fun _ _ => hpc
      | start pc client passthrough i => exact .starts create pc client passthrough i hended hpc
  | connect i event =>
      dsimp only
      unfold Program.connect
      split_ifs with hgo
      · exact .connects i event hended hgo.1 hgo.2
      · exact .stays _ fun hmain => by cases hmain
  | worker i => exact .works i hended
  | loop i event => exact .loops i event hended
  | sigpipe i =>
      dsimp only
      split_ifs with hsending
      · exact .signalled i hended hsending
      · exact .stays _ fun hmain => by cases hmain

/-- A step of the program is allowed to its connections. -/
def Feeds (Allowed : Conn → LoopEvent → Prop) (p : Program) : ProgramInput → Prop
  | .loop i event => p.process.handover.worker i = .proxy → Allowed (p.process.conn i) event
  | _ => True

/-- **A step of the program is one of the process, or none**, and clients come with the mode of
`main`. -/
theorem programStep_refines (packet : Bool → (ℤ → UInt8) → ℤ → ℤ) (v : Serving)
    (Allowed : Conn → LoopEvent → Prop) (p : Program) (input : ProgramInput)
    (hfeeds : Feeds Allowed p input) :
    ∃ steps, Along (processStep packet) (Permitted (fun mode => mode = v.passthrough) Allowed)
        p.process steps ∧
      (programStep packet v p input).process = run (processStep packet) p.process steps := by
  have hone : ∀ k, Permitted (fun mode => mode = v.passthrough) Allowed p.process k →
      ∃ steps, Along (processStep packet) (Permitted (fun mode => mode = v.passthrough) Allowed)
          p.process steps ∧
        processStep packet p.process k = run (processStep packet) p.process steps :=
    fun k hk => ⟨[k], ⟨hk, trivial⟩, rfl⟩
  have hsteps := steps_programStep packet v p input
  generalize programStep packet v p input = p' at hsteps ⊢
  cases hsteps with
  | stays => exact ⟨[], trivial, rfl⟩
  | fails => exact ⟨[], trivial, rfl⟩
  | arrives client => exact hone (.arrive client v.passthrough) rfl
  | starts create => exact hone (.acceptor create) trivial
  | connects i event => exact hone (.worker i (.connect (dialled v event).event)) trivial
  | works i => exact hone (.worker i .run) trivial
  | loops i event => exact hone (.loop i event) hfeeds
  | signalled i => exact ⟨[], trivial, rfl⟩

/-- The next instruction of `smbgw_proxy_start`. -/
theorem start_handover (packet : Bool → (ℤ → UInt8) → ℤ → ℤ) {pc : StartPc} {client : ℤ}
    {passthrough : Bool} {i : ℕ}
    (hpc : p.process.handover.acceptor = .start pc client passthrough i) (create : ThreadCreate) :
    (p.start packet pc create).process.handover =
      p.process.handover.startStep create client passthrough i pc := by
  show handoverStep p.process.handover (.acceptor create) = _
  unfold handoverStep
  rw [hpc]

/-- What the workers leave to the accept loop. -/
structure OfWorkers (s s' : Handover) : Prop where
  acceptor : s'.acceptor = s.acceptor
  cnt : s'.cnt = s.cnt
  events : ∃ new, s'.log = new ++ s.log ∧ ∀ e ∈ new, actor e ≠ .acceptor
  clients : ∀ j, (s'.ctx j).clientSocket = (s.ctx j).clientSocket ∨
    (s'.ctx j).clientSocket = invalidSocket

/-- Nothing is left as it is. -/
theorem ofWorkers_self (s : Handover) : OfWorkers s s :=
  ⟨rfl, rfl, ⟨[], rfl, by simp⟩, fun _ => Or.inl rfl⟩

/-- A step of a worker outside the proxy loop. -/
theorem ofWorkers_worker (packet : Bool → (ℤ → UInt8) → ℤ → ℤ) (s : Process) (i : ℕ)
    (event : WorkerEvent) :
    OfWorkers s.handover (processStep packet s (.worker i event)).handover := by
  have hframe := workerStep_frame s.handover i event
  have hstep : OfWorkers s.handover (s.handover.workerStep i event) := by
    obtain ⟨new, hlog, hactor⟩ := hframe.events
    have hkeeps := workerStep_keeps s.handover i event
    refine ⟨hframe.acceptor, hframe.cnt, ⟨new, hlog, fun e he heq => ?_⟩, fun j => ?_⟩
    · rw [hactor e he] at heq
      cases heq
    · by_cases hj : j = i
      · subst hj
        exact hkeeps.client.imp_right And.right
      · exact Or.inl (by rw [hkeeps.others j hj])
  show OfWorkers s.handover (s.workerStep i event).handover
  unfold Process.workerStep
  dsimp only
  split_ifs
  · exact ofWorkers_self _
  · exact hstep
  · exact hstep

/-- A step of a proxy loop. -/
theorem ofWorkers_loop (packet : Bool → (ℤ → UInt8) → ℤ → ℤ) (s : Process) (i : ℕ)
    (event : LoopEvent) :
    OfWorkers s.handover (processStep packet s (.loop i event)).handover := by
  show OfWorkers s.handover (s.loopStep packet i event).handover
  by_cases hpc : s.handover.worker i = .proxy
  · obtain ⟨worker, hstep, -, -⟩ := @loopStep_eq packet s i hpc event
    rw [hstep]
    refine ⟨rfl, rfl, ⟨[], rfl, by simp⟩, fun j => Or.inl ?_⟩
    show ((s.put i _).handover.ctx j).clientSocket = _
    by_cases hj : j = i
    · subst hj
      rw [put_ctx_self]
    · rw [put_ctx_of_ne s _ hj]
  · unfold Process.loopStep
    rw [if_neg hpc]
    exact ofWorkers_self _

end Step

/-! ## Whole runs -/

section Run

variable (packet : Bool → (ℤ → UInt8) → ℤ → ℤ) (v : Serving)

/-- Anything is allowed. -/
theorem feeds_any (input : ProgramInput) (p : Program) : Feeds AnyEvent p input := by
  cases input <;> first | trivial | exact fun _ => trivial

/-- **A run of the program is one of the process**, in which its connections are given what they
are allowed. -/
theorem run_program_refines (Allowed : Conn → LoopEvent → Prop) (process : Process)
    {inputs : List ProgramInput}
    (hfeeds : Along (programStep packet v) (Feeds Allowed) (Program.init process) inputs) :
    ∃ steps, Along (processStep packet) (Permitted (fun mode => mode = v.passthrough) Allowed)
        process steps ∧
      (run (programStep packet v) (Program.init process) inputs).process =
        run (processStep packet) process steps :=
  run_refinement_of Program.process (fun _ => True) (Feeds Allowed)
    (Permitted (fun mode => mode = v.passthrough) Allowed) (fun _ _ _ => trivial)
    (fun p input _ hfeeds => programStep_refines packet v Allowed p input hfeeds) trivial hfeeds

/-- The same of any run. -/
theorem run_program_refines_any (process : Process) (inputs : List ProgramInput) :
    ∃ steps, Along (processStep packet) (Permitted (fun mode => mode = v.passthrough) AnyEvent)
        process steps ∧
      (run (programStep packet v) (Program.init process) inputs).process =
        run (processStep packet) process steps :=
  run_program_refines packet v AnyEvent process
    (along_of_forall (fun input _ p => feeds_any input p) _)

end Run

end SmbProxy.Analysis
