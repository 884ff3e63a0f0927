import SmbProxy.Analysis.StartCall

/-!
# Who takes up a client

`smbgw_proxy_start` looks at the field `thread` of a context to see whether it has a worker, and
`pthread_create` may have written that field although it has failed. A client in a context with a
worker is taken up by it after at most four steps of its own. For a caller that goes on after a
call has failed, which `main` does not, a context that has been left with an id and without a
worker looks like the others: it takes a client and keeps it for good (`clients_taken_up`).
-/

set_option autoImplicit false

namespace SmbProxy.Analysis

open SmbProxy.Library SmbProxy.Model SmbProxy.Interface

section TakeUp

variable {s : Handover} {i : ℕ} {client : ℤ}

/-- How many instructions are left before the worker sees the client, at most. -/
def waitingRank : WorkerPc → ℕ
  | .testServerEnd => 4
  | .closeServer => 3
  | .clearServer => 2
  | .wait => 1
  | _ => 0

/-- A worker that does not wait is inside. -/
theorem inside_of_waitingRank {pc : WorkerPc} (hrank : waitingRank pc = 0) (hpresent : pc ≠ .absent) :
    inside pc = true := by
  cases pc <;> first | rfl | exact absurd rfl hpresent | cases hrank

/-- The client is in the context, and the worker on its way to see it. -/
structure Awaiting (s : Handover) (i : ℕ) (client : ℤ) : Prop where
  inv : Inv s
  holds : Holds s i client
  pc : 0 < waitingRank (s.worker i)

/-- Another thread leaves a context with its client. -/
theorem holds_other (h : Inv s) (hholds : Holds s i client) {input : HandoverInput}
    (hother : ∀ event, input ≠ .worker i event) :
    Holds (handoverStep s input) i client ∧ (handoverStep s input).worker i = s.worker i := by
  obtain ⟨rfl, hvalid⟩ := hholds
  have hkeep := others_keep h hvalid hother
  exact ⟨⟨hkeep.client, hvalid⟩, hkeep.worker⟩

/-- **The worker's own step** brings it nearer, or to the client. -/
theorem awaiting_own (h : Awaiting s i client) (event : WorkerEvent) :
    TakenUp (handoverStep s (.worker i event)) i client ∨
      Awaiting (handoverStep s (.worker i event)) i client ∧
        waitingRank ((handoverStep s (.worker i event)).worker i) < waitingRank (s.worker i) := by
  have hinv' := inv_handoverStep h.inv (.worker i event)
  obtain ⟨hclient, hvalid⟩ := h.holds
  have hrank := h.pc
  have hstep : handoverStep s (.worker i event) = s.workerStep i event := rfl
  rw [hstep] at hinv' ⊢
  unfold Handover.workerStep at hinv' ⊢
  cases hpc : s.worker i with
  | wait =>
      have hseen : ¬ (s.ctx i).clientSocket = invalidSocket := hclient ▸ hvalid
      simp only [if_neg hseen]
      refine Or.inl ⟨?_, ?_⟩
      · rw [workerAt_worker]
        rfl
      · exact (Function.update_self _ _ _).trans hclient
  | testServerEnd =>
      by_cases hserver : (s.ctx i).serverSocket ≠ invalidSocket
      · simp only [hpc, if_pos hserver] at hinv' ⊢
        refine Or.inr ⟨⟨hinv', ⟨hclient, hvalid⟩, ?_⟩, ?_⟩
        · simp [waitingRank]
        · simp [waitingRank]
      · simp only [hpc, if_neg hserver] at hinv' ⊢
        refine Or.inr ⟨⟨hinv', ⟨hclient, hvalid⟩, ?_⟩, ?_⟩
        · simp [waitingRank]
        · simp [waitingRank]
  | closeServer =>
      simp only [hpc] at hinv' ⊢
      refine Or.inr ⟨⟨hinv', ⟨hclient, hvalid⟩, ?_⟩, ?_⟩
      · simp [waitingRank]
      · simp [waitingRank]
  | clearServer =>
      have hself : (s.update i fun ctx => { ctx with serverSocket := invalidSocket }).ctx i =
          { s.ctx i with serverSocket := invalidSocket } := Function.update_self _ _ _
      simp only [hpc] at hinv' ⊢
      refine Or.inr ⟨⟨hinv', ⟨?_, hvalid⟩, ?_⟩, ?_⟩
      · show ((s.update i fun ctx => { ctx with serverSocket := invalidSocket }).ctx i).clientSocket =
          client
        rw [hself]
        exact hclient
      · simp [waitingRank]
      · simp [waitingRank]
  | absent => exact absurd (hpc ▸ hrank) (by decide)
  | testSeen => exact absurd (hpc ▸ hrank) (by decide)
  | connect => exact absurd (hpc ▸ hrank) (by decide)
  | connecting => exact absurd (hpc ▸ hrank) (by decide)
  | testServer => exact absurd (hpc ▸ hrank) (by decide)
  | closeEarly => exact absurd (hpc ▸ hrank) (by decide)
  | clearEarly => exact absurd (hpc ▸ hrank) (by decide)
  | proxy => exact absurd (hpc ▸ hrank) (by decide)
  | testClient => exact absurd (hpc ▸ hrank) (by decide)
  | closeClient => exact absurd (hpc ▸ hrank) (by decide)
  | clearClient => exact absurd (hpc ▸ hrank) (by decide)

/-- A worker that is there takes up the client of its context. -/
theorem taken_up (h : Inv s) (hholds : Holds s i client) (hpresent : s.worker i ≠ .absent)
    {inputs : List HandoverInput} (hcount : 4 ≤ inputs.countP (byWorker i)) :
    ∃ js, js <+: inputs ∧ TakenUp (run handoverStep s js) i client := by
  by_cases hrank : waitingRank (s.worker i) = 0
  · have hinside := inside_of_waitingRank hrank hpresent
    refine ⟨[], List.nil_prefix, hinside, ?_⟩
    calc
      s.seen i = (s.ctx i).clientSocket := ((h.ctx i).inside hinside).1.symm
      _ = client := hholds.1
  · have henough : waitingRank (s.worker i) ≤ inputs.countP (byWorker i) := calc
      waitingRank (s.worker i) ≤ 4 := by cases s.worker i <;> decide
      _ ≤ inputs.countP (byWorker i) := hcount
    refine @reaches_of_measure _ _ handoverStep (fun s => TakenUp s i client)
      (fun s => Awaiting s i client) (byWorker i) (fun s => waitingRank (s.worker i))
      (fun s h => h.pc) (fun t input h => ?_) s ⟨h, hholds, Nat.pos_of_ne_zero hrank⟩ inputs
      henough
    by_cases hown : ∃ event, input = .worker i event
    · obtain ⟨event, rfl⟩ := hown
      refine (awaiting_own h event).imp_right ?_
      rintro ⟨hawaiting, hlt⟩
      exact ⟨hawaiting, hlt.le, fun _ => hlt⟩
    · have hother : ∀ event, input ≠ .worker i event := fun event heq => hown ⟨event, heq⟩
      obtain ⟨hholds', hworker⟩ := holds_other h.inv h.holds hother
      refine Or.inr ⟨⟨inv_handoverStep h.inv input, hholds', hworker.symm ▸ h.pc⟩,
        (congrArg waitingRank hworker).le, fun hmine => ?_⟩
      cases input with
      | arrive client' passthrough => cases hmine
      | acceptor create => cases hmine
      | worker k event =>
          have hk : k = i := of_decide_eq_true hmine
          exact absurd (hk ▸ rfl) (hother event)

/-- **A client in a context without a worker stays there.** -/
theorem stranded_step (h : Inv s) (hholds : Holds s i client) (habsent : s.worker i = .absent)
    (input : HandoverInput) :
    Holds (handoverStep s input) i client ∧ (handoverStep s input).worker i = .absent := by
  by_cases hown : ∃ event, input = .worker i event
  · obtain ⟨event, rfl⟩ := hown
    have hstep : handoverStep s (.worker i event) = s := by
      unfold handoverStep Handover.workerStep
      simp only [habsent]
    rw [hstep]
    exact ⟨hholds, habsent⟩
  · obtain ⟨hholds', hworker⟩ := holds_other h hholds fun event heq => hown ⟨event, heq⟩
    exact ⟨hholds', hworker.trans habsent⟩

/-! ## Where there is a worker -/

/-- The acceptor has seen to it that the context has a worker. -/
def staffed : StartPc → Bool
  | .resetClientRing | .resetServerRing | .setClient => true
  | _ => false

/-- Every context with an id or a client has a worker. -/
structure Staffed (s : Handover) : Prop where
  thread : ∀ j, (s.ctx j).thread ≠ 0 → s.worker j ≠ .absent
  client : ∀ j, (s.ctx j).clientSocket ≠ invalidSocket → s.worker j ≠ .absent
  acceptor : ∀ pc client passthrough k, s.acceptor = .start pc client passthrough k →
    staffed pc = true → s.worker k ≠ .absent

/-- A worker that is there stays there. -/
theorem absent_of_successors {pc pc' : WorkerPc} (hpresent : pc ≠ .absent)
    (hmem : pc' ∈ successors pc) : pc' ≠ .absent := by
  rintro rfl
  cases pc <;> first | exact absurd rfl hpresent | simp [successors] at hmem

/-- Workers leave the threads of the contexts. -/
theorem workerStep_thread (s : Handover) (k : ℕ) (event : WorkerEvent) (j : ℕ) :
    ((s.workerStep k event).ctx j).thread = (s.ctx j).thread := by
  have hupdate : ∀ ctx : SmbCtx, ctx.thread = (s.ctx k).thread →
      (Function.update s.ctx k ctx j).thread = (s.ctx j).thread := by
    intro ctx hctx
    by_cases hj : j = k
    · subst hj
      rw [Function.update_self]
      exact hctx
    · rw [Function.update_of_ne hj]
  have hconnect : ∀ event, ((s.connectStep k event).ctx j).thread = (s.ctx j).thread := by
    intro event
    unfold Handover.connectStep
    cases event with
    | noSocket => rfl
    | refused server =>
        dsimp only
        split_ifs <;> rfl
    | connected server =>
        dsimp only
        split_ifs
        · exact hupdate _ rfl
        · rfl
  unfold Handover.workerStep
  cases s.worker k with
  | connect => exact hupdate _ rfl
  | connecting =>
      cases event with
      | connect event => exact hconnect event
      | run => rfl
      | traffic clientRing serverRing => rfl
      | ending => rfl
  | clearEarly => exact hupdate _ rfl
  | proxy =>
      cases event with
      | traffic clientRing serverRing => exact hupdate _ rfl
      | ending => rfl
      | run => rfl
      | connect event => rfl
  | clearClient => exact hupdate _ rfl
  | clearServer => exact hupdate _ rfl
  | absent => rfl
  | wait =>
      dsimp only
      split_ifs <;> rfl
  | testSeen =>
      dsimp only
      split_ifs <;> rfl
  | testServer =>
      dsimp only
      split_ifs <;> rfl
  | closeEarly => rfl
  | testClient =>
      dsimp only
      split_ifs <;> rfl
  | closeClient => rfl
  | testServerEnd =>
      dsimp only
      split_ifs <;> rfl
  | closeServer => rfl

/-- A step of a worker leaves the contexts staffed. -/
theorem staffed_workerStep (h : Staffed s) (k : ℕ) (event : WorkerEvent) :
    Staffed (s.workerStep k event) := by
  have hkeeps := workerStep_keeps s k event
  have hpresent : ∀ j, s.worker j ≠ .absent → (s.workerStep k event).worker j ≠ .absent := by
    intro j hj
    by_cases hjk : j = k
    · subst hjk
      exact absent_of_successors hj (workerStep_moves s j event)
    · rw [((workerStep_frame s k event).ctx j hjk).2]
      exact hj
  refine ⟨fun j hthread => ?_, fun j hclient => ?_, fun pc client passthrough k' hpc hstaffed => ?_⟩
  · rw [workerStep_thread] at hthread
    exact hpresent j (h.thread j hthread)
  · apply hpresent j
    apply h.client j
    by_cases hjk : j = k
    · subst hjk
      rcases hkeeps.client with hsame | ⟨-, hcleared⟩
      · rw [← hsame]
        exact hclient
      · exact absurd hcleared hclient
    · rw [← hkeeps.others j hjk]
      exact hclient
  · rw [hkeeps.acceptor] at hpc
    exact hpresent k' (h.acceptor pc client passthrough k' hpc hstaffed)

/-- The acceptor goes on, and a context has changed that has no client and no id without a
worker. -/
theorem staffed_update (h : Staffed s) {k : ℕ} {f : SmbCtx → SmbCtx} {pc : AcceptorPc}
    (hthread : (f (s.ctx k)).thread ≠ 0 → s.worker k ≠ .absent)
    (hclient : (f (s.ctx k)).clientSocket ≠ invalidSocket → s.worker k ≠ .absent)
    (hpc : ∀ pc' client passthrough k', pc = .start pc' client passthrough k' →
      staffed pc' = true → s.worker k' ≠ .absent) : Staffed ((s.update k f).goto pc) := by
  refine ⟨fun j hj => ?_, fun j hj => ?_, hpc⟩
  · by_cases hjk : j = k
    · subst hjk
      apply hthread
      rw [← show (s.update j f).ctx j = f (s.ctx j) from Function.update_self _ _ _]
      exact hj
    · apply h.thread j
      rw [← show (s.update k f).ctx j = s.ctx j from Function.update_of_ne hjk _ _]
      exact hj
  · by_cases hjk : j = k
    · subst hjk
      apply hclient
      rw [← show (s.update j f).ctx j = f (s.ctx j) from Function.update_self _ _ _]
      exact hj
    · apply h.client j
      rw [← show (s.update k f).ctx j = s.ctx j from Function.update_of_ne hjk _ _]
      exact hj

/-- The acceptor goes on, and no context has changed. -/
theorem staffed_goto (h : Staffed s) {pc : AcceptorPc}
    (hpc : ∀ pc' client passthrough k, pc = .start pc' client passthrough k →
      staffed pc' = true → s.worker k ≠ .absent) : Staffed (s.goto pc) :=
  ⟨h.thread, h.client, hpc⟩

/-- So does one of the acceptor, if `pthread_create` leaves no id behind when it fails. -/
theorem staffed_startStep (h : Staffed s) {create : ThreadCreate}
    (htidy : create.result ≠ 0 → create.thread = 0) {pc : StartPc} {passthrough : Bool} {k : ℕ}
    (hpc : s.acceptor = .start pc client passthrough k) :
    Staffed (s.startStep create client passthrough k pc) := by
  have hstaffed : staffed pc = true → s.worker k ≠ .absent := h.acceptor pc client passthrough k hpc
  unfold Handover.startStep
  cases pc with
  | testClient =>
      dsimp only
      split_ifs
      · apply staffed_goto h
        rintro _ _ _ _ ⟨⟩ hno
        cases hno
      · apply staffed_goto h
        rintro _ _ _ _ ⟨⟩ hno
        cases hno
      · apply staffed_goto h
        rintro _ _ _ _ ⟨⟩ hno
        cases hno
  | testThread =>
      dsimp only
      split_ifs with hnone
      · apply staffed_goto h
        rintro _ _ _ _ ⟨⟩ hno
        cases hno
      · apply staffed_goto h
        rintro _ _ _ _ ⟨⟩ -
        exact h.thread k hnone
  | createThread =>
      dsimp only
      split_ifs with hfails
      · -- The id that is left behind is not one.
        apply staffed_update h
        · exact fun hthread => absurd (htidy hfails) hthread
        · exact h.client k
        · rintro _ _ _ _ ⟨⟩
      · have hworker : ∀ j, Function.update s.worker k WorkerPc.wait j ≠ .absent ↔
            j = k ∨ s.worker j ≠ .absent := by
          intro j
          by_cases hjk : j = k
          · subst hjk
            simp
          · simp [hjk]
        refine ⟨fun j hj => (hworker j).mpr ?_, fun j hj => (hworker j).mpr ?_, ?_⟩
        · by_cases hjk : j = k
          · exact Or.inl hjk
          · refine Or.inr (h.thread j ?_)
            rw [← show (s.update k fun ctx => { ctx with thread := create.thread }).ctx j = s.ctx j
              from Function.update_of_ne hjk _ _]
            exact hj
        · by_cases hjk : j = k
          · exact Or.inl hjk
          · refine Or.inr (h.client j ?_)
            rw [← show (s.update k fun ctx => { ctx with thread := create.thread }).ctx j = s.ctx j
              from Function.update_of_ne hjk _ _]
            exact hj
        · rintro _ _ _ _ ⟨⟩ -
          exact (hworker k).mpr (Or.inl rfl)
  | resetClientRing =>
      apply staffed_update h
      · exact h.thread k
      · exact h.client k
      · rintro _ _ _ _ ⟨⟩ -
        exact hstaffed rfl
  | resetServerRing =>
      apply staffed_update h
      · exact h.thread k
      · exact h.client k
      · rintro _ _ _ _ ⟨⟩ -
        exact hstaffed rfl
  | setClient =>
      have hupdated := @staffed_update s h k (fun ctx => { ctx with clientSocket := client })
        (.start .setPassthrough client passthrough k) (h.thread k) (fun _ => hstaffed rfl) (by
          rintro _ _ _ _ ⟨⟩ hno
          cases hno)
      exact ⟨hupdated.thread, hupdated.client, hupdated.acceptor⟩
  | setPassthrough =>
      apply staffed_update h
      · exact h.thread k
      · exact h.client k
      · rintro _ _ _ _ ⟨⟩
  | closeClient =>
      refine ⟨h.thread, h.client, ?_⟩
      rintro _ _ _ _ ⟨⟩

/-- **Every step**, with a `pthread_create` that leaves no id behind when it fails. -/
theorem staffed_step (h : Staffed s) {input : HandoverInput} (htidy : CreatesTidily input) :
    Staffed (handoverStep s input) := by
  cases input with
  | arrive client passthrough =>
      show Staffed (s.arrive client passthrough)
      unfold Handover.arrive
      split_ifs
      · refine ⟨h.thread, h.client, ?_⟩
        rintro _ _ _ _ ⟨⟩ hno
        cases hno
      · exact h
  | acceptor create =>
      unfold handoverStep
      cases hpc : s.acceptor with
      | idle => exact h
      | start pc client passthrough k => exact staffed_startStep h htidy hpc
  | worker k event => exact staffed_workerStep h k event

/-- At the beginning there is neither a client nor a thread. -/
theorem staffed_init (maxConnections : ℕ) (size : ℤ) (clientData serverData : ℕ → ℤ → UInt8) :
    Staffed (Handover.init maxConnections size clientData serverData) := by
  refine ⟨fun j hj => absurd rfl hj, fun j hj => absurd rfl hj, ?_⟩
  rintro _ _ _ _ ⟨⟩

end TakeUp

/-- **Who takes up a client.** In every run, a client in a context that has a worker is taken up
by it after four steps of its own, however the other threads interleave. Without a worker it stays
in the context whatever happens, but there is no such context as long as no `pthread_create` fails
and leaves an id behind. -/
theorem clients_taken_up (maxConnections : ℕ) (size : ℤ) (clientData serverData : ℕ → ℤ → UInt8)
    (earlier later : List HandoverInput) (i : ℕ) (client : ℤ) :
    let s := run handoverStep (Handover.init maxConnections size clientData serverData) earlier
    Holds s i client →
      (s.worker i ≠ .absent → 4 ≤ later.countP (byWorker i) →
        ∃ js, js <+: later ∧ TakenUp (run handoverStep s js) i client) ∧
      (s.worker i = .absent → Holds (run handoverStep s later) i client ∧
        (run handoverStep s later).worker i = .absent) ∧
      ((∀ input ∈ earlier, CreatesTidily input) → s.worker i ≠ .absent) := by
  intro s hholds
  have hinv : Inv s := run_invariant Inv (fun _ input h => inv_handoverStep h input)
    (inv_init maxConnections size clientData serverData) earlier
  refine ⟨fun hpresent hcount => taken_up hinv hholds hpresent hcount, fun habsent => ?_,
    fun htidy => ?_⟩
  · exact (run_invariant (fun s => Inv s ∧ Holds s i client ∧ s.worker i = .absent)
      (fun t input h => ⟨inv_handoverStep h.1 input, stranded_step h.1 h.2.1 h.2.2 input⟩)
      ⟨hinv, hholds, habsent⟩ later).2
  · have hstaffed : Staffed s := run_invariant_of (fun _ input => CreatesTidily input) Staffed
      (fun _ _ h htidy => staffed_step h htidy)
      (staffed_init maxConnections size clientData serverData)
      (along_of_forall (fun input hmem _ => htidy input hmem) _)
    apply hstaffed.client i
    rw [hholds.1]
    exact hholds.2

/-- With a thread for the context the client 5 is taken up. In a run in which the first
`pthread_create` fails and leaves an id, the client 6 goes into that context and stays there. -/
theorem clients_taken_up_or_stranded :
    (let earlier : List HandoverInput :=
      .arrive 5 false :: List.replicate 6 (.acceptor ⟨0, 7, by decide⟩)
    let s := run handoverStep (Handover.init 1 16 (fun _ _ => 0) fun _ _ => 0) earlier
    ∃ js, js <+: List.replicate 4 (.worker 0 .run) ∧ TakenUp (run handoverStep s js) 0 5) ∧
    (let earlier : List HandoverInput :=
      .arrive 5 false :: List.replicate 3 (.acceptor ⟨11, 1, by decide⟩) ++
        .arrive 6 false :: List.replicate 6 (.acceptor ⟨0, 1, by decide⟩)
    let s := run handoverStep (Handover.init 1 16 (fun _ _ => 0) fun _ _ => 0) earlier
    ∀ later, Holds (run handoverStep s later) 0 6 ∧
      (run handoverStep s later).worker 0 = .absent) := by
  refine ⟨?_, ?_⟩
  · intro earlier s
    obtain ⟨htaken, -, htidy⟩ := clients_taken_up 1 16 (fun _ _ => 0) (fun _ _ => 0) earlier
      (List.replicate 4 (.worker 0 .run)) 0 5 ⟨by decide, by decide⟩
    refine htaken (htidy fun input hmem => ?_) (by decide)
    obtain rfl | hmem := List.mem_cons.mp hmem
    · trivial
    · rw [List.eq_of_mem_replicate hmem]
      exact fun hfail => absurd rfl hfail
  · intro earlier s later
    obtain ⟨-, hstranded, -⟩ := clients_taken_up 1 16 (fun _ _ => 0) (fun _ _ => 0) earlier later
      0 6 ⟨by decide, by decide⟩
    exact hstranded (by decide)

end SmbProxy.Analysis
