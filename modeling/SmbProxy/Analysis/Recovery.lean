import SmbProxy.Analysis.WorkerSteps
import SmbProxy.Interface.Sockets

/-!
# A context comes back

A worker that has left the proxy loop, or could not connect to the server, closes what it
has and waits again. It waits for nobody on the way, so a number of its own steps that does
not depend on anything brings it there, in every order of the steps (`worker_recovers`).
Meanwhile the acceptor may already have put the next client into its context.
-/

set_option autoImplicit false

namespace SmbProxy.Analysis

open SmbProxy.Library SmbProxy.Model SmbProxy.Interface

/-- How many instructions are left before the worker waits again, at most. -/
def endingRank : WorkerPc → ℕ
  | .testClient => 6
  | .closeClient => 5
  | .clearClient => 4
  | .testServerEnd => 3
  | .closeServer => 2
  | .clearServer => 1
  | .closeEarly => 2
  | .clearEarly => 1
  | _ => 0

/-- The worker has not closed its client yet. -/
def holding : WorkerPc → Bool
  | .testClient | .closeClient | .closeEarly => true
  | _ => false

/-- A worker on its way back with the sockets it has had. -/
structure Leaving (s : Handover) (i : ℕ) (client : ℤ) (server : Option ℤ) : Prop where
  inv : Inv s
  pc : 0 < endingRank (s.worker i)
  valid : client ≠ invalidSocket
  holds : holding (s.worker i) = true → (s.ctx i).clientSocket = client
  closed : holding (s.worker i) = false → Closed s.log client
  serves : ∀ socket ∈ server, s.worker i ≠ .clearServer → (s.ctx i).serverSocket = socket
  serverClosed : ∀ socket ∈ server, s.worker i = .clearServer → Closed s.log socket
  early : s.worker i = .closeEarly ∨ s.worker i = .clearEarly → server = none

section Recovery

variable {s : Handover} {i : ℕ} {client : ℤ} {server : Option ℤ}

/-- What has been closed stays so. -/
theorem closed_mono (s : Handover) (input : HandoverInput) {socket : ℤ} (h : Closed s.log socket) :
    Closed (handoverStep s input).log socket := by
  obtain ⟨e, he, hcloses⟩ := h
  exact ⟨e, log_mono s input he, hcloses⟩

/-- A worker that has a server socket to close is inside. -/
theorem inside_of_holding {pc : WorkerPc} (h : holding pc = true) : inside pc = true := by
  cases pc <;> first | rfl | cases h

/-- A worker that is leaving is not where it has nothing more to do. -/
theorem ne_of_leaving (h : Leaving s i client server) {pc : WorkerPc} (hrank : endingRank pc = 0) :
    s.worker i ≠ pc := by
  rintro rfl
  exact absurd hrank h.pc.ne'

/-- Another thread leaves a worker on its way. -/
theorem leaving_other (h : Leaving s i client server) {input : HandoverInput}
    (hother : ∀ event, input ≠ .worker i event) : Leaving (handoverStep s input) i client server := by
  have hpresent : s.worker i ≠ .absent := ne_of_leaving h rfl
  have hworker := worker_of_other_present h.inv hpresent hother
  have hserver := server_of_other s hother
  refine ⟨inv_handoverStep h.inv input, ?_, h.valid, ?_, ?_, ?_, ?_, ?_⟩
  · rw [hworker]
    exact h.pc
  · rw [hworker]
    intro hholding
    obtain ⟨hclient, hvalid⟩ := (h.inv.ctx i).inside (inside_of_holding hholding)
    rw [(others_keep h.inv (hclient ▸ hvalid) hother).client]
    exact h.holds hholding
  · rw [hworker]
    exact fun hholding => closed_mono s input (h.closed hholding)
  · rw [hworker, hserver]
    exact h.serves
  · rw [hworker]
    exact fun socket hsocket hpc => closed_mono s input (h.serverClosed socket hsocket hpc)
  · rw [hworker]
    exact h.early

/-- A worker that waits again does not have a closed client. -/
theorem released_of_wait (h : Inv s) (hpc : s.worker i = .wait) (hvalid : client ≠ invalidSocket)
    (hclient : Closed s.log client)
    (hserver : ∀ socket ∈ server, socket ≠ invalidSocket → Closed s.log socket) :
    Released s i client server := by
  refine ⟨hpc, hclient, hserver, ?_⟩
  rintro rfl
  obtain ⟨e, he, hcloses⟩ := hclient
  have hopen := (h.ctx i).unclosed hvalid (by rw [hpc]; rfl) e he
  rw [hcloses] at hopen
  cases hopen

/-- **The worker's own step** brings it nearer, or back. -/
theorem leaving_own (h : Leaving s i client server) (event : WorkerEvent) :
    Released (handoverStep s (.worker i event)) i client server ∨
      Leaving (handoverStep s (.worker i event)) i client server ∧
        endingRank ((handoverStep s (.worker i event)).worker i) < endingRank (s.worker i) := by
  have hinv' := inv_handoverStep h.inv (.worker i event)
  have hstep : handoverStep s (.worker i event) = s.workerStep i event := rfl
  rw [hstep] at hinv' ⊢
  unfold Handover.workerStep at hinv' ⊢
  cases hpc : s.worker i with
  | testClient =>
      have hclient := h.holds (by rw [hpc]; rfl)
      have hvalid : (s.ctx i).clientSocket ≠ invalidSocket := hclient ▸ h.valid
      simp only [hpc, if_pos hvalid] at hinv' ⊢
      refine Or.inr ⟨⟨hinv', ?_, h.valid, fun _ => hclient, ?_, fun socket hsocket _ =>
        h.serves socket hsocket (by rw [hpc]; decide), ?_, ?_⟩, ?_⟩
      · simp [endingRank]
      · simp [holding]
      · simp
      · simp
      · simp [endingRank]
  | closeClient =>
      have hclient := h.holds (by rw [hpc]; rfl)
      simp only [hpc] at hinv' ⊢
      refine Or.inr ⟨⟨hinv', ?_, h.valid, ?_, fun _ => ?_, fun socket hsocket _ =>
        h.serves socket hsocket (by rw [hpc]; decide), ?_, ?_⟩, ?_⟩
      · simp [endingRank]
      · simp [holding]
      · exact ⟨_, List.mem_cons_self, by simp [closes, hclient]⟩
      · simp
      · simp
      · simp [endingRank]
  | clearClient =>
      have hclosed := h.closed (by rw [hpc]; rfl)
      have hself : (s.update i fun ctx => { ctx with clientSocket := invalidSocket }).ctx i =
          { s.ctx i with clientSocket := invalidSocket } := Function.update_self _ _ _
      simp only [hpc] at hinv' ⊢
      refine Or.inr ⟨⟨hinv', ?_, h.valid, ?_, fun _ => hclosed, fun socket hsocket _ => ?_, ?_, ?_⟩, ?_⟩
      · simp [endingRank]
      · simp [holding]
      · show ((s.update i fun ctx => { ctx with clientSocket := invalidSocket }).ctx i).serverSocket =
          socket
        rw [hself]
        exact h.serves socket hsocket (by rw [hpc]; decide)
      · simp
      · simp
      · simp [endingRank]
  | testServerEnd =>
      have hclosed := h.closed (by rw [hpc]; rfl)
      have hserver := fun socket hsocket => h.serves socket hsocket (by rw [hpc]; decide)
      by_cases hhas : (s.ctx i).serverSocket ≠ invalidSocket
      · simp only [hpc, if_pos hhas] at hinv' ⊢
        refine Or.inr ⟨⟨hinv', ?_, h.valid, ?_, fun _ => hclosed, fun socket hsocket _ =>
          hserver socket hsocket, ?_, ?_⟩, ?_⟩
        · simp [endingRank]
        · simp [holding]
        · simp
        · simp
        · simp [endingRank]
      · simp only [hpc, if_neg hhas] at hinv' ⊢
        refine Or.inl (released_of_wait hinv' (workerAt_worker s i .wait) h.valid hclosed
          fun socket hsocket hvalid => ?_)
        rw [not_not, hserver socket hsocket] at hhas
        exact absurd hhas hvalid
  | closeServer =>
      have hclosed := h.closed (by rw [hpc]; rfl)
      have hserver := fun socket hsocket => h.serves socket hsocket (by rw [hpc]; decide)
      simp only [hpc] at hinv' ⊢
      refine Or.inr ⟨⟨hinv', ?_, h.valid, ?_, fun _ => ?_, ?_, fun socket hsocket _ => ?_, ?_⟩, ?_⟩
      · simp [endingRank]
      · simp [holding]
      · obtain ⟨e, he, hcloses⟩ := hclosed
        exact ⟨e, List.mem_cons_of_mem _ he, hcloses⟩
      · simp
      · exact ⟨_, List.mem_cons_self, by simp [closes, hserver socket hsocket]⟩
      · simp
      · simp [endingRank]
  | clearServer =>
      have hclosed := h.closed (by rw [hpc]; rfl)
      simp only [hpc] at hinv' ⊢
      exact Or.inl (released_of_wait hinv' (Function.update_self _ _ _) h.valid hclosed
        fun socket hsocket _ => h.serverClosed socket hsocket hpc)
  | closeEarly =>
      have hclient := h.holds (by rw [hpc]; rfl)
      have hnone := h.early (Or.inl hpc)
      simp only [hpc] at hinv' ⊢
      refine Or.inr ⟨⟨hinv', ?_, h.valid, ?_, fun _ => ?_, ?_, ?_, fun _ => hnone⟩, ?_⟩
      · simp [endingRank]
      · simp [holding]
      · exact ⟨_, List.mem_cons_self, by simp [closes, hclient]⟩
      · simp [hnone]
      · simp
      · simp [endingRank]
  | clearEarly =>
      have hclosed := h.closed (by rw [hpc]; rfl)
      have hnone := h.early (Or.inr hpc)
      simp only [hpc] at hinv' ⊢
      exact Or.inl (released_of_wait hinv' (Function.update_self _ _ _) h.valid hclosed
        (by simp [hnone]))
  | absent => exact absurd hpc (ne_of_leaving h rfl)
  | wait => exact absurd hpc (ne_of_leaving h rfl)
  | testSeen => exact absurd hpc (ne_of_leaving h rfl)
  | connect => exact absurd hpc (ne_of_leaving h rfl)
  | connecting => exact absurd hpc (ne_of_leaving h rfl)
  | testServer => exact absurd hpc (ne_of_leaving h rfl)
  | proxy => exact absurd hpc (ne_of_leaving h rfl)

/-- A worker on its way takes at most as many steps as it has instructions. -/
theorem leaving_ends (h : Leaving s i client server) {inputs : List HandoverInput}
    (hcount : endingRank (s.worker i) ≤ inputs.countP (byWorker i)) :
    ∃ js, js <+: inputs ∧ Released (run handoverStep s js) i client server := by
  refine @reaches_of_measure _ _ handoverStep (fun s => Released s i client server)
    (fun s => Leaving s i client server) (byWorker i) (fun s => endingRank (s.worker i))
    (fun s h => h.pc) (fun t input h => ?_) s h inputs hcount
  by_cases hown : ∃ event, input = .worker i event
  · obtain ⟨event, rfl⟩ := hown
    refine (leaving_own h event).imp_right ?_
    rintro ⟨hleaving, hlt⟩
    exact ⟨hleaving, hlt.le, fun _ => hlt⟩
  · have hother : ∀ event, input ≠ .worker i event := fun event heq => hown ⟨event, heq⟩
    have hleaving := leaving_other h hother
    have hpresent : t.worker i ≠ .absent := ne_of_leaving h rfl
    refine Or.inr ⟨hleaving, ?_, fun hmine => ?_⟩
    · rw [worker_of_other_present h.inv hpresent hother]
    · cases input with
      | arrive client' passthrough => cases hmine
      | acceptor create => cases hmine
      | worker k event =>
          have hk : k = i := of_decide_eq_true hmine
          exact absurd (hk ▸ rfl) (hother event)

/-- **A context comes back.** In every run, six steps of its own after a worker has left the
proxy loop, and two steps after it could not connect, however the other threads interleave:
the worker has been waiting again, with its client and its server socket closed and the client
out of its context. -/
theorem worker_recovers (maxConnections : ℕ) (size : ℤ) (clientData serverData : ℕ → ℤ → UInt8)
    (earlier later : List HandoverInput) (i : ℕ) :
    let s := run handoverStep (Handover.init maxConnections size clientData serverData) earlier
    (s.worker i = .testClient → 6 ≤ later.countP (byWorker i) →
      ∃ js, js <+: later ∧ Released (run handoverStep s js) i (s.ctx i).clientSocket
        (some (s.ctx i).serverSocket)) ∧
    (s.worker i = .closeEarly → 2 ≤ later.countP (byWorker i) →
      ∃ js, js <+: later ∧ Released (run handoverStep s js) i (s.ctx i).clientSocket none) := by
  intro s
  have hinv : Inv s := run_invariant Inv (fun _ input h => inv_handoverStep h input)
    (inv_init maxConnections size clientData serverData) earlier
  constructor
  · intro hpc hcount
    obtain ⟨hclient, hvalid⟩ := (hinv.ctx i).inside (by rw [hpc]; rfl)
    refine leaving_ends ⟨hinv, by rw [hpc]; decide, hclient ▸ hvalid, fun _ => rfl, ?_, ?_, ?_, ?_⟩
      (by rw [hpc]; exact hcount)
    · rw [hpc]
      simp [holding]
    · simp
    · rw [hpc]
      simp
    · rw [hpc]
      simp
  · intro hpc hcount
    obtain ⟨hclient, hvalid⟩ := (hinv.ctx i).inside (by rw [hpc]; rfl)
    refine leaving_ends ⟨hinv, by rw [hpc]; decide, hclient ▸ hvalid, fun _ => rfl, ?_, ?_, ?_,
      fun _ => rfl⟩ (by rw [hpc]; exact hcount)
    · rw [hpc]
      simp [holding]
    · simp
    · simp

/-- While the worker ends its connection another client arrives. -/
theorem worker_recovers_one_client :
    let earlier : List HandoverInput :=
      .arrive 5 false :: List.replicate 7 (.acceptor ⟨0, 1, by decide⟩) ++
        [.worker 0 .run, .worker 0 .run, .worker 0 .run, .worker 0 (.connect (.connected 7)),
          .worker 0 .run, .worker 0 .ending]
    let later : List HandoverInput :=
      [.worker 0 .run, .arrive 6 false, .worker 0 .run, .acceptor ⟨0, 1, by decide⟩, .worker 0 .run,
        .worker 0 .run, .worker 0 .run, .worker 0 .run]
    let s := run handoverStep (Handover.init 1 16 (fun _ _ => 0) fun _ _ => 0) earlier
    ∃ js, js <+: later ∧ Released (run handoverStep s js) 0 5 (some 7) := by
  intro earlier later s
  have hsockets : (s.ctx 0).clientSocket = 5 ∧ (s.ctx 0).serverSocket = 7 := by decide
  have hrecovers := (worker_recovers 1 16 (fun _ _ => 0) (fun _ _ => 0) earlier later 0).1
    (by decide) (by decide)
  rw [← hsockets.1, ← hsockets.2]
  exact hrecovers

end Recovery

end SmbProxy.Analysis
