import SmbProxy.Analysis.Handover
import SmbProxy.Interface.Passthrough

/-!
# The mode under which a connection runs

A context with a client has the flag that was requested for it from when the acceptor has
stored it on (`ModesInv`), and nobody else stores to it (`workerStep_keeps`). But the client is
stored first, and the worker of the context may have connected and read a packet before the flag
is there. So the tests read what was requested iff none comes in between
(`asRequested_step_iff`).
-/

set_option autoImplicit false

namespace SmbProxy.Analysis

open SmbProxy.Library SmbProxy.Model SmbProxy.Interface

/-! ## The invariant -/

/-- The acceptor has the flag that was requested for its client, and a context that is not
waiting for its flag has that of its client. -/
structure ModesInv (s : Handover) (requested : ℤ → Option Bool) : Prop where
  handover : Inv s
  known : ∀ client passthrough, requested client = some passthrough → client ∈ s.sockets
  carried : ∀ pc client passthrough i, s.acceptor = .start pc client passthrough i →
    requested client = some passthrough
  awaiting : ∀ client passthrough i, s.acceptor = .start .setPassthrough client passthrough i →
    (s.ctx i).clientSocket ≠ invalidSocket → (s.ctx i).clientSocket = client
  settled : ∀ i, (∀ client passthrough, s.acceptor ≠ .start .setPassthrough client passthrough i) →
    (s.ctx i).clientSocket ≠ invalidSocket →
    requested (s.ctx i).clientSocket = some (s.ctx i).passthrough

/-- At the beginning nothing has been asked for. -/
theorem modesInv_init (maxConnections : ℕ) (size : ℤ) (clientData serverData : ℕ → ℤ → UInt8) :
    ModesInv (Handover.init maxConnections size clientData serverData) fun _ => none where
  handover := inv_init maxConnections size clientData serverData
  known client passthrough hrequested := by cases hrequested
  carried pc client passthrough i hpc := by cases hpc
  awaiting client passthrough i hpc := by cases hpc
  settled i _ hvalid := absurd rfl hvalid

section Steps

variable {s : Handover} {requested : ℤ → Option Bool} {client : ℤ} {passthrough : Bool} {k : ℕ}
  {pc : StartPc}

/-! ## The acceptor -/

/-- A client that has not been handed out before is in no context. -/
theorem modesInv_arrive (h : ModesInv s requested) (hidle : s.acceptor = .idle)
    (hfresh : s.Fresh client) :
    ModesInv (s.arrive client passthrough)
      (Function.update requested client (some passthrough)) := by
  have hinv : Inv (s.arrive client passthrough) := inv_arrive h.handover
  have harrive : s.arrive client passthrough =
      { s with sockets := client :: s.sockets }.goto (.start .testClient client passthrough 0) :=
    if_pos ⟨hidle, hfresh⟩
  rw [harrive] at hinv ⊢
  refine ⟨hinv, ?_, ?_, ?_, ?_⟩
  · intro client' passthrough' hrequested
    by_cases heq : client' = client
    · rw [heq]
      exact List.mem_cons_self
    · rw [Function.update_of_ne heq] at hrequested
      exact List.mem_cons_of_mem client (h.known client' passthrough' hrequested)
  · rintro _ _ _ _ ⟨⟩
    exact Function.update_self _ _ _
  · intro _ _ _ hpc
    cases hpc
  · intro i _ hvalid
    have hne : (s.ctx i).clientSocket ≠ client := by
      rintro rfl
      exact hfresh.2 (h.handover.known _ ((h.handover.ctx i).held hvalid))
    have hnone : ∀ client passthrough,
        s.acceptor ≠ .start .setPassthrough client passthrough i := by
      rw [hidle]
      exact fun _ _ => AcceptorPc.noConfusion
    have hsettled := h.settled i hnone hvalid
    rwa [← Function.update_of_ne hne (some passthrough) requested] at hsettled

/-- What an instruction of the acceptor moves: it goes on with the same client and flag, and
stores them to its context only where it is at these stores. -/
structure StartMoves (s s' : Handover) (pc : StartPc) (client : ℤ) (passthrough : Bool) (k : ℕ) :
    Prop where
  sockets : s'.sockets = s.sockets
  acceptor : s'.acceptor = .idle ∧ pc ≠ .setClient ∨ ∃ pc' i,
    s'.acceptor = .start pc' client passthrough i ∧
      (pc = .setClient → pc' = .setPassthrough ∧ i = k) ∧
      (pc' = .setPassthrough → pc = .setClient)
  client : ∀ i, (s'.ctx i).clientSocket =
    if pc = .setClient ∧ i = k then client else (s.ctx i).clientSocket
  passthrough : ∀ i, (s'.ctx i).passthrough =
    if pc = .setPassthrough ∧ i = k then passthrough else (s.ctx i).passthrough

/-- An instruction changes its context alone. -/
theorem startMoves_of_update {s' : Handover} {ctx : SmbCtx} (hsockets : s'.sockets = s.sockets)
    (hacceptor : s'.acceptor = .idle ∧ pc ≠ .setClient ∨ ∃ pc' i,
      s'.acceptor = .start pc' client passthrough i ∧
        (pc = .setClient → pc' = .setPassthrough ∧ i = k) ∧
        (pc' = .setPassthrough → pc = .setClient))
    (hctx : s'.ctx = Function.update s.ctx k ctx)
    (hclient : ctx.clientSocket = if pc = .setClient then client else (s.ctx k).clientSocket)
    (hpassthrough : ctx.passthrough =
      if pc = .setPassthrough then passthrough else (s.ctx k).passthrough) :
    StartMoves s s' pc client passthrough k := by
  refine ⟨hsockets, hacceptor, fun i => ?_, fun i => ?_⟩
  · by_cases hi : i = k
    · rw [hctx, hi, Function.update_self, hclient]
      simp
    · rw [hctx, Function.update_of_ne hi, if_neg fun h => hi h.2]
  · by_cases hi : i = k
    · rw [hctx, hi, Function.update_self, hpassthrough]
      simp
    · rw [hctx, Function.update_of_ne hi, if_neg fun h => hi h.2]

/-- How a step of the acceptor moves the mode on. -/
theorem startStep_moves (s : Handover) (create : ThreadCreate) (client : ℤ) (passthrough : Bool)
    (k : ℕ) (pc : StartPc) :
    StartMoves s (s.startStep create client passthrough k pc) pc client passthrough k := by
  have hself : s.ctx = Function.update s.ctx k (s.ctx k) := (Function.update_eq_self k s.ctx).symm
  unfold Handover.startStep
  cases pc with
  | testClient =>
      dsimp only
      split_ifs
      · exact startMoves_of_update rfl (Or.inr ⟨_, _, rfl, by simp, by simp⟩) hself rfl rfl
      · exact startMoves_of_update rfl (Or.inr ⟨_, _, rfl, by simp, by simp⟩) hself rfl rfl
      · exact startMoves_of_update rfl (Or.inr ⟨_, _, rfl, by simp, by simp⟩) hself rfl rfl
  | testThread =>
      dsimp only
      split_ifs
      · exact startMoves_of_update rfl (Or.inr ⟨_, _, rfl, by simp, by simp⟩) hself rfl rfl
      · exact startMoves_of_update rfl (Or.inr ⟨_, _, rfl, by simp, by simp⟩) hself rfl rfl
  | createThread =>
      dsimp only
      split_ifs
      · exact startMoves_of_update rfl (Or.inl ⟨rfl, by simp⟩) rfl rfl rfl
      · exact startMoves_of_update rfl (Or.inr ⟨_, _, rfl, by simp, by simp⟩) rfl rfl rfl
  | resetClientRing =>
      exact startMoves_of_update rfl (Or.inr ⟨_, _, rfl, by simp, by simp⟩) rfl rfl rfl
  | resetServerRing =>
      exact startMoves_of_update rfl (Or.inr ⟨_, _, rfl, by simp, by simp⟩) rfl rfl rfl
  | setClient =>
      exact startMoves_of_update rfl (Or.inr ⟨_, _, rfl, by simp, by simp⟩) rfl rfl rfl
  | setPassthrough => exact startMoves_of_update rfl (Or.inl ⟨rfl, by simp⟩) rfl rfl rfl
  | closeClient => exact startMoves_of_update rfl (Or.inl ⟨rfl, by simp⟩) hself rfl rfl

/-- The acceptor keeps track of the mode of its client. -/
theorem modesInv_startStep (h : ModesInv s requested)
    (hpc : s.acceptor = .start pc client passthrough k) (create : ThreadCreate) :
    ModesInv (s.startStep create client passthrough k pc) requested := by
  have hmoves := startStep_moves s create client passthrough k pc
  have hinv := inv_startStep h.handover hpc create
  generalize s.startStep create client passthrough k pc = s' at hmoves hinv ⊢
  refine ⟨hinv, ?_, ?_, ?_, ?_⟩
  · intro client' passthrough' hrequested
    rw [hmoves.sockets]
    exact h.known client' passthrough' hrequested
  · intro pc' client' passthrough' i hpc'
    rcases hmoves.acceptor with ⟨hidle, -⟩ | ⟨_, _, hstart, -⟩
    · rw [hidle] at hpc'
      cases hpc'
    · rw [hstart] at hpc'
      cases hpc'
      exact h.carried pc client passthrough k hpc
  · intro client' passthrough' i hpc' _
    rcases hmoves.acceptor with ⟨hidle, -⟩ | ⟨_, _, hstart, hat, hclient⟩
    · rw [hidle] at hpc'
      cases hpc'
    · rw [hstart] at hpc'
      cases hpc'
      have hset := hclient rfl
      rw [hmoves.client, if_pos ⟨hset, (hat hset).2⟩]
  · intro i hnone hvalid
    have hclient : ¬ (pc = .setClient ∧ i = k) := by
      -- that context now waits for its flag
      rintro ⟨hset, rfl⟩
      rcases hmoves.acceptor with ⟨-, hne⟩ | ⟨_, _, hstart, hat, -⟩
      · exact hne hset
      · obtain ⟨rfl, rfl⟩ := hat hset
        exact hnone client passthrough hstart
    rw [hmoves.client, if_neg hclient] at hvalid ⊢
    rw [hmoves.passthrough]
    by_cases hflag : pc = .setPassthrough ∧ i = k
    · obtain ⟨rfl, rfl⟩ := hflag
      rw [if_pos ⟨rfl, rfl⟩, h.awaiting client passthrough i hpc hvalid]
      exact h.carried .setPassthrough client passthrough i hpc
    · rw [if_neg hflag]
      refine h.settled i ?_ hvalid
      rw [hpc]
      rintro _ _ ⟨⟩
      exact hflag ⟨rfl, rfl⟩

/-! ## The workers -/

/-- The flag of a context is none of its worker's business. -/
theorem modesInv_workerStep (h : ModesInv s requested) (k : ℕ) (event : WorkerEvent) :
    ModesInv (s.workerStep k event) requested := by
  have hkeeps := workerStep_keeps s k event
  have hinv := inv_workerStep h.handover (i := k) event
  generalize s.workerStep k event = s' at hkeeps hinv ⊢
  have hctx : ∀ i, (s'.ctx i).clientSocket ≠ invalidSocket →
      (s'.ctx i).clientSocket = (s.ctx i).clientSocket ∧
        (s'.ctx i).passthrough = (s.ctx i).passthrough := by
    intro i hvalid
    by_cases hi : i = k
    · subst hi
      cases hkeeps.client with
      | inl hsame => exact ⟨hsame, hkeeps.passthrough⟩
      | inr hcleared => exact absurd hcleared.2 hvalid
    · rw [hkeeps.others i hi]
      exact ⟨rfl, rfl⟩
  refine ⟨hinv, ?_, ?_, ?_, ?_⟩
  · intro client' passthrough' hrequested
    exact hkeeps.sockets client' (h.known client' passthrough' hrequested)
  · intro pc' client' passthrough' i hpc'
    exact h.carried pc' client' passthrough' i (hkeeps.acceptor ▸ hpc')
  · intro client' passthrough' i hpc' hvalid
    have hclient := (hctx i hvalid).1
    rw [hclient] at hvalid ⊢
    exact h.awaiting client' passthrough' i (hkeeps.acceptor ▸ hpc') hvalid
  · intro i hnone hvalid
    obtain ⟨hclient, hflag⟩ := hctx i hvalid
    rw [hclient] at hvalid ⊢
    rw [hflag]
    rw [hkeeps.acceptor] at hnone
    exact h.settled i hnone hvalid

end Steps

/-! ## Runs -/

section Runs

variable {s : Modes}

/-- Every step does. -/
theorem modesInv_step (h : ModesInv s.handover s.requested) (input : ModesInput) :
    ModesInv (modesStep s input).handover (modesStep s input).requested := by
  cases input with
  | step input =>
      cases input with
      | arrive client passthrough =>
          show ModesInv (s.handover.arrive client passthrough)
            (s.request (.arrive client passthrough))
          by_cases haccepted : s.handover.acceptor = .idle ∧ s.handover.Fresh client
          · have hrequest : s.request (.arrive client passthrough) =
                Function.update s.requested client (some passthrough) := if_pos haccepted
            rw [hrequest]
            exact modesInv_arrive h haccepted.1 haccepted.2
          · have hrequest : s.request (.arrive client passthrough) = s.requested :=
              if_neg haccepted
            have harrive : s.handover.arrive client passthrough = s.handover := if_neg haccepted
            rw [hrequest, harrive]
            exact h
      | acceptor create =>
          show ModesInv (handoverStep s.handover (.acceptor create)) s.requested
          unfold handoverStep
          cases hpc : s.handover.acceptor with
          | idle => exact h
          | start pc client passthrough k => exact modesInv_startStep h hpc create
      | worker k event => exact modesInv_workerStep h k event
  | packet i =>
      show ModesInv (s.test i).handover (s.test i).requested
      unfold Modes.test
      split_ifs
      · exact h
      · exact h

/-- What has been requested for a client stays so. -/
theorem request_keeps (h : ModesInv s.handover s.requested) {client : ℤ} {passthrough : Bool}
    (hrequested : s.requested client = some passthrough) (input : HandoverInput) :
    s.request input client = some passthrough := by
  cases input with
  | arrive client' passthrough' =>
      unfold Modes.request
      dsimp only
      split_ifs with haccepted
      · have hne : client ≠ client' := by
          rintro rfl
          exact haccepted.2.2 (h.known client passthrough hrequested)
        rw [Function.update_of_ne hne]
        exact hrequested
      · exact hrequested
  | acceptor create => exact hrequested
  | worker k event => exact hrequested

/-- **A test reads what was requested** iff the flag is stored. -/
theorem asRequested_step_iff (h : ModesInv s.handover s.requested) (hread : AsRequested s)
    (input : ModesInput) : AsRequested (modesStep s input) ↔ FlagStored s input := by
  cases input with
  | step input =>
      refine iff_of_true (fun test htest => ?_) trivial
      exact request_keeps h (hread test htest) input
  | packet i =>
      unfold modesStep Modes.test FlagStored
      dsimp only
      by_cases hproxy : s.handover.worker i = .proxy
      · rw [if_pos hproxy]
        have hinside : inside (s.handover.worker i) = true := by
          rw [hproxy]
          rfl
        obtain ⟨hclient, hseen⟩ := (h.handover.ctx i).inside hinside
        have hvalid : (s.handover.ctx i).clientSocket ≠ invalidSocket := hclient ▸ hseen
        constructor
        · intro hall _ client passthrough hpc
          have hnew := hall _ List.mem_cons_self
          dsimp only at hnew
          rw [h.awaiting client passthrough i hpc hvalid,
            h.carried .setPassthrough client passthrough i hpc] at hnew
          exact (Option.some.inj hnew).symm
        · intro hstored test htest
          cases htest with
          | tail _ hold => exact hread test hold
          | head =>
              show s.requested (s.handover.ctx i).clientSocket = some (s.handover.ctx i).passthrough
              by_cases hpc : ∃ client passthrough,
                  s.handover.acceptor = .start .setPassthrough client passthrough i
              · obtain ⟨client, passthrough, hpc⟩ := hpc
                rw [h.awaiting client passthrough i hpc hvalid,
                  hstored hproxy client passthrough hpc]
                exact h.carried .setPassthrough client passthrough i hpc
              · apply h.settled i _ hvalid
                intro client passthrough heq
                exact hpc ⟨client, passthrough, heq⟩
      · rw [if_neg hproxy]
        exact iff_of_true hread fun hpc => absurd hpc hproxy

/-- **Each connection runs under the mode requested for it** in exactly the runs in which no
packet comes between the stores of a client and of another flag than the context has. -/
theorem as_requested_iff (maxConnections : ℕ) (size : ℤ) (clientData serverData : ℕ → ℤ → UInt8)
    (inputs : List ModesInput) :
    (∀ js, js <+: inputs →
      AsRequested (run modesStep (Modes.init maxConnections size clientData serverData) js)) ↔
      Along modesStep FlagStored (Modes.init maxConnections size clientData serverData) inputs := by
  have hinit := modesInv_init maxConnections size clientData serverData
  have hnone : AsRequested (Modes.init maxConnections size clientData serverData) :=
    fun test htest => by cases htest
  rw [← run_invariant_iff FlagStored
    (fun s => ModesInv s.handover s.requested ∧ AsRequested s) ?_ ⟨hinit, hnone⟩]
  · apply forall₂_congr
    intro js _
    have hinv := run_invariant (fun s : Modes => ModesInv s.handover s.requested)
      (fun _ input h => modesInv_step h input) (s := Modes.init _ _ _ _) hinit js
    exact (and_iff_right hinv).symm
  · rintro s input ⟨h, hread⟩
    rw [and_iff_right (modesInv_step h input)]
    exact asRequested_step_iff h hread input

/-- The first client asks for passthrough; its packet is tested before the flag is stored. -/
theorem not_as_requested_early :
    ¬ AsRequested (run modesStep (Modes.init 1 16 (fun _ _ => 0) fun _ _ => 0)
      ([.step (.arrive 5 true)] ++ List.replicate 6 (.step (.acceptor ⟨0, 7, by simp⟩)) ++
        List.replicate 3 (.step (.worker 0 .run)) ++
        [.step (.worker 0 (.connect (.connected 9))), .step (.worker 0 .run), .packet 0])) := by
  intro hread
  have hfirst := hread (5, false) List.mem_cons_self
  cases hfirst

end Runs

end SmbProxy.Analysis
