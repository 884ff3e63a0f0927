import SmbProxy.Analysis.Program
import SmbProxy.Analysis.StartCall

/-!
# What the accept loop does with the clients

Only the acceptor installs clients, and it has one at a time, so the clients that the contexts
have taken are those that have come, in the same order. A call that fails leaves its
client out and ends the loop. As long as a client finds a free context when it
comes, and no `pthread_create` fails, no call fails (`accept_loop_survives`), for what was
free when the call began is what it finds; where all contexts are busy the loop comes to its end
after `maxConnections + 7` of its own instructions at most (`accept_loop_cut_off`).
-/

set_option autoImplicit false

namespace SmbProxy.Analysis

open SmbProxy.Library SmbProxy.Model SmbProxy.Interface

section AcceptLoop

variable {packet : Bool → (ℤ → UInt8) → ℤ → ℤ} {v : Serving} {p : Program}

/-! ## The order of the clients -/

/-- **The invariant of the accepted clients.** -/
structure Accounted (p : Program) : Prop where
  carried : ∀ client, carries p.process.handover.acceptor client →
    p.accepted = client :: installs p.process.handover.log
  served : p.ended ≠ some (.loop .start) → (∀ client, ¬ carries p.process.handover.acceptor client) →
    p.accepted = installs p.process.handover.log
  lost : p.ended = some (.loop .start) → ∃ client, p.accepted = client :: installs p.process.handover.log

/-- Workers install no clients. -/
theorem installs_of_workers {s s' : Handover} (h : OfWorkers s s') :
    installs s'.log = installs s.log := by
  obtain ⟨new, hlog, hactor⟩ := h.events
  have hnone : installs new = [] := by
    refine List.filterMap_eq_nil_iff.mpr fun e he => ?_
    cases e with
    | install i client => exact absurd rfl (hactor _ he)
    | close actor client => rfl
    | openServer i client server => rfl
    | closeServer i client server => rfl
  unfold installs at hnone ⊢
  rw [hlog, List.filterMap_append, hnone, List.nil_append]

/-- The workers change neither side. -/
theorem accounted_workers (h : Accounted p) {process : Process} {dials : List Dial}
    (hworkers : OfWorkers p.process.handover process.handover) :
    Accounted { p with process := process, dials := dials } where
  carried client hcarries := by
    rw [installs_of_workers hworkers]
    exact h.carried client (hworkers.acceptor ▸ hcarries)
  served hended hidle := by
    rw [installs_of_workers hworkers]
    exact h.served hended (hworkers.acceptor ▸ hidle)
  lost hended := by
    rw [installs_of_workers hworkers]
    exact h.lost hended

/-- An instruction of the call before it has settled its client: the call goes on with the client,
installs it, or fails with it. -/
theorem startStep_account (s : Handover) (create : ThreadCreate) (client : ℤ) (passthrough : Bool)
    (i : ℕ) {pc : StartPc} (hcarrying : carrying pc = true) :
    let s' := s.startStep create client passthrough i pc
    (∃ pc' i', s'.acceptor = .start pc' client passthrough i' ∧ carrying pc' = true ∧
        installs s'.log = installs s.log ∧ startResult create pc = none) ∨
      (s'.acceptor = .start .setPassthrough client passthrough i ∧
        installs s'.log = client :: installs s.log ∧ startResult create pc = none) ∨
      (s'.acceptor = .idle ∧ installs s'.log = installs s.log ∧
        startResult create pc = some (-1)) := by
  intro s'
  cases pc with
  | testClient =>
      left
      by_cases hi : i < s.cnt
      · by_cases hfree : (s.ctx i).clientSocket = invalidSocket
        · refine ⟨.testThread, i, ?_, rfl, ?_, rfl⟩ <;>
            simp [s', Handover.startStep, hi, hfree, Handover.goto]
        · refine ⟨.testClient, i + 1, ?_, rfl, ?_, rfl⟩ <;>
            simp [s', Handover.startStep, hi, hfree, Handover.goto]
      · refine ⟨.closeClient, i, ?_, rfl, ?_, rfl⟩ <;>
          simp [s', Handover.startStep, hi, Handover.goto]
  | testThread =>
      left
      by_cases hthread : (s.ctx i).thread = 0
      · refine ⟨.createThread, i, ?_, rfl, ?_, rfl⟩ <;>
          simp [s', Handover.startStep, hthread, Handover.goto]
      · refine ⟨.resetClientRing, i, ?_, rfl, ?_, rfl⟩ <;>
          simp [s', Handover.startStep, hthread, Handover.goto]
  | createThread =>
      by_cases hresult : create.result = 0
      · refine Or.inl ⟨.resetClientRing, i, ?_, rfl, ?_, ?_⟩ <;>
          simp [s', Handover.startStep, startResult, hresult, Handover.goto, Handover.update]
      · refine Or.inr (Or.inr ⟨?_, ?_, ?_⟩) <;>
          simp [s', Handover.startStep, startResult, hresult, Handover.goto, Handover.update]
  | resetClientRing => exact Or.inl ⟨.resetServerRing, i, rfl, rfl, rfl, rfl⟩
  | resetServerRing => exact Or.inl ⟨.setClient, i, rfl, rfl, rfl, rfl⟩
  | setClient => exact Or.inr (Or.inl ⟨rfl, rfl, rfl⟩)
  | setPassthrough => cases hcarrying
  | closeClient => exact Or.inr (Or.inr ⟨rfl, rfl, rfl⟩)

/-- The call of `smbgw_proxy_start` keeps the account. -/
theorem accounted_start (h : Accounted p) {pc : StartPc} {client : ℤ} {passthrough : Bool} {i : ℕ}
    (hended : p.ended = none) (hpc : p.process.handover.acceptor = .start pc client passthrough i)
    (create : ThreadCreate) : Accounted (p.start packet pc create) := by
  have hhandover := start_handover packet hpc create
  by_cases hcarrying : carrying pc = true
  · have hcarried : p.accepted = client :: installs p.process.handover.log :=
      h.carried client (by rw [hpc]; exact ⟨hcarrying, rfl⟩)
    have haccount := startStep_account p.process.handover create client passthrough i hcarrying
    rw [← hhandover] at haccount
    rcases haccount with ⟨pc', i', hpc', hcarrying', hlog, hresult⟩ | ⟨hpc', hlog, hresult⟩ |
      ⟨hidle, hlog, hresult⟩
    · -- It goes on.
      have hended' : (p.start packet pc create).ended = none := by simp [Program.start, hresult]
      refine ⟨fun client' hcarries => ?_, fun _ hnone => ?_, fun hlost => ?_⟩
      · rw [hpc'] at hcarries
        rw [hcarries.2, hlog]
        exact hcarried
      · rw [hpc'] at hnone
        exact absurd ⟨hcarrying', rfl⟩ (hnone client)
      · rw [hended'] at hlost
        cases hlost
    · -- The client is in a context.
      have hended' : (p.start packet pc create).ended = none := by simp [Program.start, hresult]
      refine ⟨fun client' hcarries => ?_, fun _ _ => ?_, fun hlost => ?_⟩
      · rw [hpc'] at hcarries
        exact absurd hcarries.1 Bool.false_ne_true
      · rw [hlog]
        exact hcarried
      · rw [hended'] at hlost
        cases hlost
    · -- The call has failed, and with it the loop.
      have hended' : (p.start packet pc create).ended = some (.loop .start) := by
        simp [Program.start, hresult]
      refine ⟨fun client' hcarries => ?_, fun hne => absurd hended' hne, fun _ => ⟨client, ?_⟩⟩
      · rw [hidle] at hcarries
        exact hcarries.elim
      · rw [hlog]
        exact hcarried
  · -- The client has been installed before.
    have hlast : pc = .setPassthrough := by
      cases pc <;> first | rfl | exact absurd rfl hcarrying
    subst hlast
    have hserved : p.accepted = installs p.process.handover.log := by
      refine h.served (by simp [hended]) fun client' hcarries => ?_
      rw [hpc] at hcarries
      exact hcarrying hcarries.1
    refine ⟨fun client' hcarries => ?_, fun _ _ => ?_, fun hlost => by cases hlost⟩
    · rw [hhandover] at hcarries
      exact hcarries.elim
    · rw [hhandover]
      exact hserved

/-- **Every step keeps the account.** -/
theorem accounted_step (h : Accounted p) (input : ProgramInput) :
    Accounted (programStep packet v p input) := by
  have hsteps := steps_programStep packet v p input
  generalize programStep packet v p input = p' at hsteps ⊢
  cases hsteps with
  | stays => exact h
  | fails event hended hidle hresult =>
      exact ⟨h.carried, fun _ hnone => h.served (by simp [hended]) hnone, fun hlost => by cases hlost⟩
  | arrives client hended hidle hfresh =>
      have hserved := h.served (by simp [hended]) (by rw [hidle]; exact fun _ hcarries => hcarries)
      have hstart : (processStep packet p.process (.arrive client v.passthrough)).handover =
          { p.process.handover with sockets := (client : ℤ) :: p.process.handover.sockets }.goto
            (.start .testClient client v.passthrough 0) :=
        if_pos ⟨hidle, hfresh⟩
      refine ⟨fun client' hcarries => ?_, fun _ hnone => ?_, fun hlost => ?_⟩
      · dsimp only at hcarries ⊢
        rw [hstart] at hcarries ⊢
        rw [hcarries.2, hserved]
        rfl
      · dsimp only at hnone
        rw [hstart] at hnone
        exact absurd ⟨rfl, rfl⟩ (hnone client)
      · exact absurd (hended.symm.trans hlost) (by simp)
  | starts create pc client passthrough i hended hpc => exact accounted_start h hended hpc create
  | connects i event hended hpc hfresh => exact accounted_workers h (ofWorkers_worker packet _ i _)
  | works i hended => exact accounted_workers h (ofWorkers_worker packet _ i _)
  | loops i event hended => exact accounted_workers h (ofWorkers_loop packet _ i event)
  | signalled i hended hsending =>
      exact ⟨h.carried, fun _ hnone => h.served (by simp [hended]) hnone, fun hlost => by cases hlost⟩

/-- At the beginning no client has come. -/
theorem accounted_init {process : Process} (hidle : process.handover.acceptor = .idle)
    (hlog : process.handover.log = []) : Accounted (Program.init process) where
  carried client hcarries := by
    have hcarries : carries process.handover.acceptor client := hcarries
    rw [hidle] at hcarries
    exact hcarries.elim
  served _ _ := by
    show [] = installs process.handover.log
    rw [hlog]
    rfl
  lost hlost := by cases hlost

/-- The account says that the order is kept. -/
theorem servedInOrder_of_accounted (h : Accounted p) : ServedInOrder p := by
  by_cases hcarries : ∃ client, carries p.process.handover.acceptor client
  · obtain ⟨client, hcarries⟩ := hcarries
    have haccepted := h.carried client hcarries
    refine ⟨?_, ?_, fun hidle => ?_⟩
    · rw [haccepted]
      exact List.suffix_cons _ _
    · rw [haccepted]
      exact le_rfl
    · rw [hidle] at hcarries
      exact hcarries.elim
  · have hnone : ∀ client, ¬ carries p.process.handover.acceptor client :=
      fun client hclient => hcarries ⟨client, hclient⟩
    by_cases hlost : p.ended = some (.loop .start)
    · obtain ⟨client, haccepted⟩ := h.lost hlost
      refine ⟨?_, ?_, fun _ hne => absurd hlost hne⟩
      · rw [haccepted]
        exact List.suffix_cons _ _
      · rw [haccepted]
        exact le_rfl
    · have haccepted := h.served hlost hnone
      refine ⟨?_, ?_, fun _ _ => haccepted⟩
      · rw [haccepted]
      · rw [haccepted]
        exact Nat.le_succ _

/-- **The account holds in every run.** -/
theorem run_accounted (packet : Bool → (ℤ → UInt8) → ℤ → ℤ) (v : Serving) (maxConnections : ℕ)
    (size : ℤ) (clientData serverData : ℕ → ℤ → UInt8) (locals : ℕ → ProxyLocals)
    (inputs : List ProgramInput) :
    Accounted (run (programStep packet v)
      (Program.init (Process.init maxConnections size clientData serverData locals)) inputs) :=
  run_invariant Accounted (fun _ input h => accounted_step h input) (accounted_init rfl rfl) inputs

/-- **Clients are taken in the order in which they come**, in every run of the program. -/
theorem served_in_order (packet : Bool → (ℤ → UInt8) → ℤ → ℤ) (v : Serving) (maxConnections : ℕ)
    (size : ℤ) (clientData serverData : ℕ → ℤ → UInt8) (locals : ℕ → ProxyLocals)
    (inputs : List ProgramInput) :
    ServedInOrder (run (programStep packet v)
      (Program.init (Process.init maxConnections size clientData serverData locals)) inputs) :=
  servedInOrder_of_accounted
    (run_accounted packet v maxConnections size clientData serverData locals inputs)

/-! ## While there is room -/

/-- **The invariant of an accept loop with room.** The call that is under way has found a free
context at its beginning. -/
structure Spacious (p : Program) : Prop where
  ended : p.ended = none
  inv : Inv p.process.handover
  call : ∀ pc client passthrough i, p.process.handover.acceptor = .start pc client passthrough i →
    ∃ before, CallInv before p.process.handover client ∧ ∃ j < before.cnt, ¬ Busy before j

/-- A call is for one client. -/
theorem startStep_client {s : Handover} {create : ThreadCreate} {client client' : ℤ}
    {passthrough passthrough' : Bool} {i i' : ℕ} {pc pc' : StartPc}
    (h : (s.startStep create client passthrough i pc).acceptor = .start pc' client' passthrough' i') :
    client' = client := by
  unfold Handover.startStep at h
  cases pc <;> dsimp only at h <;> (try split_ifs at h) <;>
    simp only [Handover.goto, AcceptorPc.start.injEq, reduceCtorEq] at h <;> exact h.2.1.symm

/-- The steps of the workers leave the call under way. -/
theorem spacious_workers (h : Spacious p) {input : ProcessInput} {dials : List Dial}
    (hworkers : OfWorkers p.process.handover (processStep packet p.process input).handover) :
    Spacious { p with process := processStep packet p.process input, dials := dials } := by
  obtain ⟨steps, hsteps⟩ := processStep_refines packet p.process input
  refine ⟨h.ended, ?_, fun pc client passthrough i hpc => ?_⟩
  · show Inv (processStep packet p.process input).handover
    rw [hsteps]
    exact run_invariant Inv (fun _ input h => inv_handoverStep h input) h.inv steps
  · obtain ⟨before, hcall, hfree⟩ := h.call pc client passthrough i (hworkers.acceptor ▸ hpc)
    refine ⟨before, ?_, hfree⟩
    show CallInv before (processStep packet p.process input).handover client
    rw [hsteps]
    exact run_invariant (fun s => CallInv before s client) (fun _ input h => callInv_step h input)
      hcall steps

/-- **A call with a free context does not fail**, unless `pthread_create` does. -/
theorem spacious_start (h : Spacious p) {pc : StartPc} {client : ℤ} {passthrough : Bool} {i : ℕ}
    (hpc : p.process.handover.acceptor = .start pc client passthrough i) {create : ThreadCreate}
    (hroom : HasRoom p (.acceptor create)) : Spacious (p.start packet pc create) := by
  obtain ⟨before, hcall, j, hj, hfree⟩ := h.call pc client passthrough i hpc
  have hhandover := start_handover packet hpc create
  have hended : (p.start packet pc create).ended = none := by
    unfold Program.start startResult
    cases pc with
    | closeClient => exact absurd (hcall.scans _ _ _ hpc j hj) hfree
    | createThread =>
        have hresult : create.result = 0 := by simpa [HasRoom, createFails, hpc] using hroom
        simp [hresult]
    | testClient => rfl
    | testThread => rfl
    | resetClientRing => rfl
    | resetServerRing => rfl
    | setClient => rfl
    | setPassthrough => rfl
  refine ⟨hended, inv_handoverStep h.inv (.acceptor create), fun pc' client' passthrough' i' hpc' => ?_⟩
  have hclient : client' = client := by
    rw [hhandover] at hpc'
    exact startStep_client hpc'
  rw [hclient]
  exact ⟨before, callInv_startStep hcall hpc create, j, hj, hfree⟩

/-- **Every step** that leaves room keeps the accept loop going. -/
theorem spacious_step (h : Spacious p) {input : ProgramInput} (hroom : HasRoom p input) :
    Spacious (programStep packet v p input) := by
  have hsteps := steps_programStep packet v p input
  generalize programStep packet v p input = p' at hsteps ⊢
  cases hsteps with
  | stays => exact h
  | fails event hended hidle hresult => exact absurd (hroom hidle).1 hresult
  | arrives client hended hidle hfresh =>
      have hvalid : (client : ℤ) ≠ invalidSocket := by
        unfold invalidSocket
        omega
      refine ⟨h.ended, inv_handoverStep h.inv (.arrive client v.passthrough),
        fun pc client' passthrough i hpc => ?_⟩
      have hclient : client' = client := by
        have hstart : (handoverStep p.process.handover (.arrive client v.passthrough)).acceptor =
            .start .testClient client v.passthrough 0 := by
          show (p.process.handover.arrive client v.passthrough).acceptor = _
          unfold Handover.arrive
          rw [if_pos ⟨hidle, hfresh⟩]
          rfl
        have hpc := hstart.symm.trans hpc
        cases hpc
        rfl
      rw [hclient]
      exact ⟨p.process.handover, callInv_arrive h.inv hidle hfresh, (hroom hidle).2 hvalid⟩
  | starts create pc client passthrough i hended hpc => exact spacious_start h hpc hroom
  | connects i event hended hpc hfresh => exact spacious_workers h (ofWorkers_worker packet _ i _)
  | works i hended => exact spacious_workers h (ofWorkers_worker packet _ i _)
  | loops i event hended => exact spacious_workers h (ofWorkers_loop packet _ i event)
  | signalled i hended hsending => exact absurd hsending hroom

/-- The server at the address `inet_pton` makes of an empty host. -/
def emptyServing : Serving := ⟨Globals.init, 445, 5, false, 3⟩

/-- A client comes, and the accept loop places it. -/
def clientComes (client : ℕ) : List ProgramInput :=
  .accept (.accepted client) :: List.replicate 8 (.acceptor ⟨0, 1, by decide⟩)

/-- The contexts have the clients they had, as far as they have one. -/
def SameClients (before p : Program) : Prop :=
  ∀ i, (p.process.handover.ctx i).clientSocket = (before.process.handover.ctx i).clientSocket ∨
    (p.process.handover.ctx i).clientSocket = invalidSocket

/-- The call for the client has found no context yet. -/
structure Cornered (before : Program) (client : ℤ) (p : Program) : Prop where
  ended : p.ended = none
  same : SameClients before p
  call : ∃ pc passthrough i, p.process.handover.acceptor = .start pc client passthrough i ∧
    (pc = .testClient ∨ pc = .closeClient)

/-- The workers take no client away but their own, and put none in. -/
theorem cornered_workers {before : Program} {client : ℤ} (h : Cornered before client p)
    {process : Process} {dials : List Dial}
    (hworkers : OfWorkers p.process.handover process.handover) :
    Cornered before client { p with process := process, dials := dials } := by
  obtain ⟨pc, passthrough, i, hpc, hfound⟩ := h.call
  refine ⟨h.ended, fun j => ?_, pc, passthrough, i, hworkers.acceptor.trans hpc, hfound⟩
  rcases hworkers.clients j with hkept | hcleared
  · exact (h.same j).imp hkept.trans hkept.trans
  · exact Or.inr hcleared

/-- A context that is busy has the client it had. -/
theorem kept_of_busy {before : Program} (h : SameClients before p) {i : ℕ}
    (hbusy : Busy p.process.handover i) :
    (p.process.handover.ctx i).clientSocket = (before.process.handover.ctx i).clientSocket :=
  (h i).resolve_right hbusy

/-- How many instructions the accept loop still has before it, at most. -/
def mainRank (p : Program) : ℕ := callRank p.process.handover.cnt p.process.handover.acceptor

/-- The workers leave to the accept loop what it has before it. -/
theorem mainRank_workers {process : Process} {dials : List Dial}
    (h : OfWorkers p.process.handover process.handover) :
    mainRank { p with process := process, dials := dials } = mainRank p := by
  show callRank process.handover.cnt process.handover.acceptor = _
  rw [h.cnt, h.acceptor]
  rfl

/-- With all contexts busy the call finds none, and ends the accept loop. -/
theorem cornered_start {before : Program} {client : ℤ} (h : Cornered before client p)
    (hfull : StaysFull p) {create : ThreadCreate} {pc : StartPc} {client' : ℤ} {passthrough : Bool}
    {i : ℕ} (hpc : p.process.handover.acceptor = .start pc client' passthrough i) :
    CutOff before (p.start packet pc create) client ∨
      Cornered before client (p.start packet pc create) := by
  obtain ⟨pc', passthrough', i', hpc', hfound⟩ := h.call
  rw [hpc] at hpc'
  obtain ⟨rfl, rfl, rfl, rfl⟩ := AcceptorPc.start.inj hpc'
  have hhandover := start_handover packet hpc create
  cases hfound with
  | inl htest =>
      subst htest
      right
      by_cases hi : i < p.process.handover.cnt
      · have hbusy : (p.process.handover.ctx i).clientSocket ≠ invalidSocket := hfull i hi
        have hstep : p.process.handover.startStep create client' passthrough i .testClient =
            p.process.handover.goto (.start .testClient client' passthrough (i + 1)) := by
          simp [Handover.startStep, hi, hbusy]
        rw [hstep] at hhandover
        refine ⟨rfl, fun j => ?_, .testClient, passthrough, i + 1, ?_, Or.inl rfl⟩
        · rw [hhandover]
          exact h.same j
        · rw [hhandover]
          rfl
      · have hstep : p.process.handover.startStep create client' passthrough i .testClient =
            p.process.handover.goto (.start .closeClient client' passthrough i) := by
          simp [Handover.startStep, hi]
        rw [hstep] at hhandover
        refine ⟨rfl, fun j => ?_, .closeClient, passthrough, i, ?_, Or.inr rfl⟩
        · rw [hhandover]
          exact h.same j
        · rw [hhandover]
          rfl
  | inr hclose =>
      subst hclose
      left
      refine ⟨rfl, ?_, fun j hj => ?_, fun j hj => ?_⟩
      · rw [hhandover]
        exact List.mem_cons_self
      · rw [hhandover] at hj ⊢
        exact hfull j hj
      · rw [hhandover] at hj ⊢
        exact kept_of_busy h.same (hfull j hj)

/-- **A step while all contexts are busy.** -/
theorem cornered_step {before : Program} {client : ℤ} (h : Cornered before client p)
    (input : ProgramInput) (hfull : HeldFull p input) :
    CutOff before (programStep packet v p input) client ∨
      Cornered before client (programStep packet v p input) ∧
        mainRank (programStep packet v p input) ≤ mainRank p ∧
          (ofMain input = true → mainRank (programStep packet v p input) < mainRank p) := by
  have hbusy : p.process.handover.acceptor ≠ .idle := by
    obtain ⟨pc, passthrough, i, hpc, -⟩ := h.call
    rw [hpc]
    exact AcceptorPc.noConfusion
  have hsteps := steps_programStep packet v p input
  generalize programStep packet v p input = p' at hsteps ⊢
  cases hsteps with
  | stays _ hmain => exact Or.inr ⟨h, le_rfl, fun hinput => absurd (hmain hinput h.ended) hbusy⟩
  | fails event hended hidle hresult => exact absurd hidle hbusy
  | arrives client hended hidle hfresh => exact absurd hidle hbusy
  | starts create pc client' passthrough i hended hpc =>
      refine (cornered_start h hfull.1 hpc).imp_right fun hcornered => ⟨hcornered, ?_⟩
      have hlt : mainRank (p.start packet pc create) < mainRank p := by
        unfold mainRank
        rw [start_handover packet hpc create, (startStep_cnt _ create client' passthrough i pc).1, hpc]
        exact callRank_startStep p.process.handover create pc
      exact ⟨hlt.le, fun _ => hlt⟩
  | connects i event hended hpc hfresh =>
      have hworkers := ofWorkers_worker packet p.process i (.connect (dialled v event).event)
      exact Or.inr ⟨cornered_workers h hworkers, (mainRank_workers hworkers).le,
        fun hmain => by cases hmain⟩
  | works i hended =>
      have hworkers := ofWorkers_worker packet p.process i .run
      exact Or.inr ⟨cornered_workers h hworkers, (mainRank_workers hworkers).le,
        fun hmain => by cases hmain⟩
  | loops i event hended =>
      have hworkers := ofWorkers_loop packet p.process i event
      exact Or.inr ⟨cornered_workers h hworkers, (mainRank_workers hworkers).le,
        fun hmain => by cases hmain⟩
  | signalled i hended hsending => exact absurd hsending hfull.2

/-- With the client that is accepted the call begins, at the first context. -/
theorem cornered_accept {client : ℕ} (hended : p.ended = none)
    (hidle : p.process.handover.acceptor = .idle) (hfresh : p.process.handover.Fresh client) :
    Cornered p client (programStep packet v p (.accept (.accepted client))) ∧
      mainRank (programStep packet v p (.accept (.accepted client))) =
        p.process.handover.cnt + 7 := by
  have hvalid : (client : ℤ) ≠ invalidSocket := by
    unfold invalidSocket
    omega
  have hcome : programStep packet v p (.accept (.accepted client)) =
      { p with
        process := processStep packet p.process (.arrive client v.passthrough)
        accepted := client :: p.accepted } := by
    unfold programStep Program.accept
    simp [hended, hidle, tcpAcceptConnection, hvalid, hfresh]
  have hhandover : (programStep packet v p (.accept (.accepted client))).process.handover =
      { p.process.handover with sockets := (client : ℤ) :: p.process.handover.sockets }.goto
        (.start .testClient client v.passthrough 0) := by
    rw [hcome]
    exact if_pos ⟨hidle, hfresh⟩
  refine ⟨⟨?_, fun j => Or.inl ?_, .testClient, v.passthrough, 0, ?_, Or.inl rfl⟩, ?_⟩
  · rw [hcome]
    exact hended
  · rw [hhandover]
    rfl
  · rw [hhandover]
    rfl
  · unfold mainRank
    rw [hhandover]
    rfl

/-- No run changes the number of contexts. -/
theorem program_cnt (packet : Bool → (ℤ → UInt8) → ℤ → ℤ) (v : Serving) (process : Process)
    (inputs : List ProgramInput) :
    (run (programStep packet v) (Program.init process) inputs).process.handover.cnt =
      process.handover.cnt := by
  obtain ⟨steps, -, hsteps⟩ := run_program_refines_any packet v process inputs
  obtain ⟨steps', hsteps'⟩ := run_refinement Process.handover (fun _ => True) (fun _ _ _ => trivial)
    (fun s input _ => processStep_refines packet s input) (trivial : True) steps
    (s := process)
  rw [hsteps, hsteps', run_cnt]

/-- When the program has ended nothing happens any more. -/
theorem run_of_ended (hended : p.ended ≠ none) (inputs : List ProgramInput) :
    run (programStep packet v) p inputs = p := by
  induction inputs with
  | nil => rfl
  | cons input inputs ih =>
      rw [run_cons, show programStep packet v p input = p from if_neg hended]
      exact ih

/-- **A client that comes to a full house ends the program.** If a client comes while all contexts
are busy, and none of them becomes free while `smbgw_proxy_start` looks for one, nor does a signal
end the program, then after `maxConnections + 7` of its instructions at the latest the accept loop
has ended, and with it all connections that were being served. -/
theorem accept_loop_cut_off (packet : Bool → (ℤ → UInt8) → ℤ → ℤ) (v : Serving)
    (maxConnections : ℕ) (size : ℤ) (clientData serverData : ℕ → ℤ → UInt8)
    (locals : ℕ → ProxyLocals) (earlier during : List ProgramInput) (client : ℕ) :
    let before := run (programStep packet v)
      (Program.init (Process.init maxConnections size clientData serverData locals)) earlier
    let inputs : List ProgramInput := .accept (.accepted client) :: during
    before.ended = none → before.process.handover.acceptor = .idle →
      before.process.handover.Fresh client →
        Along (programStep packet v) HeldFull before inputs →
          maxConnections + 7 ≤ during.countP ofMain →
            CutOff before (run (programStep packet v) before inputs) client := by
  intro before inputs hended hidle hfresh hfull hcount
  obtain ⟨hcornered, hrank⟩ := @cornered_accept packet v before client hended hidle hfresh
  have hpos : ∀ p : Program, Cornered before client p → 0 < mainRank p := by
    intro p h
    obtain ⟨pc, passthrough, i, hpc, -⟩ := h.call
    exact callRank_pos _ (by rw [hpc]; exact AcceptorPc.noConfusion)
  have henough : mainRank (programStep packet v before (.accept (.accepted client))) ≤
      during.countP ofMain := calc
    _ = before.process.handover.cnt + 7 := hrank
    _ = maxConnections + 7 := by rw [program_cnt]; rfl
    _ ≤ during.countP ofMain := hcount
  obtain ⟨js, hjs, hcut⟩ := reaches_of_measure_of (P := fun p => CutOff before p client)
    HeldFull mainRank hpos
    (fun p input h hfull => @cornered_step packet v p before client h input hfull) hcornered hfull.2
    henough
  -- After that nothing happens any more.
  obtain ⟨rest, rfl⟩ := hjs
  show CutOff before (run (programStep packet v)
    (programStep packet v before (.accept (.accepted client))) (js ++ rest)) client
  rw [run_append, run_of_ended (by rw [hcut.ended]; simp)]
  exact hcut

/-- With one context, the second client ends the program while the first one is being served. -/
theorem accept_loop_cut_off_second :
    let start := Program.init (Process.init 1 16 (fun _ _ => 0) (fun _ _ => 0) fun _ => .start)
    let before := run (programStep (fun _ _ _ => 0) emptyServing) start (clientComes 5)
    CutOff before (run (programStep (fun _ _ _ => 0) emptyServing) before (clientComes 6))
      ((6 : ℕ) : ℤ) :=
  accept_loop_cut_off (fun _ _ _ => 0) emptyServing 1 16 (fun _ _ => 0) (fun _ _ => 0)
    (fun _ => .start) (clientComes 5) (List.replicate 8 (.acceptor ⟨0, 1, by decide⟩)) 6
    (by decide +kernel) (by decide +kernel) (by decide +kernel) (by decide +kernel) (by decide)

end AcceptLoop

end SmbProxy.Analysis
