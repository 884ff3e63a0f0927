import SmbProxy.Analysis.WorkerSteps
import SmbProxy.Interface.StartCall

/-!
# A call of `smbgw_proxy_start` beside the workers

The contexts that the call has passed were busy when it began, for while it looks for a
context nobody else installs a client: a context can become free behind its back, and
never busy. So what it finds in the end also held at the start (`CallInv`). It waits for no
worker: `cnt + 7` of its own instructions end it, in every order of the steps.
-/

set_option autoImplicit false

namespace SmbProxy.Analysis

open SmbProxy.Library SmbProxy.Model SmbProxy.Interface

variable {before s : Handover} {client : ℤ} {passthrough : Bool} {i : ℕ}

/-- What the call knows of the contexts at its beginning. -/
def Scans (before s : Handover) (pc : StartPc) (i : ℕ) : Prop :=
  match pc with
  | .testClient => (∀ j < i, Busy before j) ∧ ∀ j, Busy s j → Busy before j
  | .setPassthrough => True
  | .closeClient => ∀ j < before.cnt, Busy before j
  | _ => i < before.cnt ∧ ∀ j < i, Busy before j

/-- **The invariant of the call for a client.** -/
structure CallInv (before s : Handover) (client : ℤ) : Prop where
  inv : Inv s
  cnt : s.cnt = before.cnt
  known : client ∈ s.sockets
  scans : ∀ pc passthrough i, s.acceptor = .start pc client passthrough i → Scans before s pc i
  outcome : AsIfAtOnce before s client

/-- A call that begins has refused and placed nothing. -/
theorem callInv_arrive (h : Inv before) (hidle : before.acceptor = .idle)
    (hfresh : before.Fresh client) :
    CallInv before (handoverStep before (.arrive client passthrough)) client := by
  have hstart : handoverStep before (.arrive client passthrough) =
      { before with sockets := client :: before.sockets }.goto
        (.start .testClient client passthrough 0) :=
    if_pos ⟨hidle, hfresh⟩
  have hnew := new_of_fresh h hfresh
  refine ⟨inv_handoverStep h (.arrive client passthrough), ?_, ?_, fun pc passthrough' i hpc => ?_, ?_, ?_⟩
  · rw [hstart]
    rfl
  · rw [hstart]
    exact List.mem_cons_self
  · rw [hstart] at hpc ⊢
    cases hpc
    exact ⟨fun j hj => absurd hj (Nat.not_lt_zero j), fun j hj => hj⟩
  · rw [hstart]
    intro hmem
    exact absurd rfl (hnew _ hmem)
  · rw [hstart]
    intro i hmem
    exact absurd rfl (hnew _ hmem)

/-- An event of another thread, or about another socket, says nothing of the call. -/
theorem asIfAtOnce_mono {s' : Handover} (h : AsIfAtOnce before s client)
    (hevents : ∀ e ∈ s'.log, e ∈ s.log ∨ (actor e ≠ .acceptor ∨ subject e ≠ client)) :
    AsIfAtOnce before s' client where
  refused hmem := by
    cases hevents _ hmem with
    | inl hold => exact h.refused hold
    | inr hother =>
        cases hother with
        | inl hactor => exact absurd rfl hactor
        | inr hsubject => exact absurd rfl hsubject
  placed i hmem := by
    cases hevents _ hmem with
    | inl hold => exact h.placed i hold
    | inr hother =>
        cases hother with
        | inl hactor => exact absurd rfl hactor
        | inr hsubject => exact absurd rfl hsubject

/-- A step of a worker leaves the call alone. -/
theorem callInv_worker (h : CallInv before s client) (k : ℕ) (event : WorkerEvent) :
    CallInv before (handoverStep s (.worker k event)) client := by
  have hkeeps := workerStep_keeps s k event
  have hframe := workerStep_frame s k event
  obtain ⟨new, hlog, hactor⟩ := hframe.events
  refine ⟨inv_handoverStep h.inv _, (handoverStep_cnt s _).trans h.cnt, handoverStep_sockets s _ h.known,
    fun pc passthrough i hpc => ?_, asIfAtOnce_mono h.outcome fun e he => ?_⟩
  · have hpc' : s.acceptor = .start pc client passthrough i := hframe.acceptor.symm.trans hpc
    have hscans := h.scans pc passthrough i hpc'
    cases pc with
    | testClient =>
        refine ⟨hscans.1, fun j hj => hscans.2 j ?_⟩
        -- A worker takes the client from its context or leaves it there.
        unfold Busy at hj ⊢
        by_cases hjk : j = k
        · subst hjk
          cases hkeeps.client with
          | inl hsame => exact hsame ▸ hj
          | inr hcleared => exact absurd hcleared.2 hj
        · rw [show (handoverStep s (.worker k event)).ctx j = s.ctx j from hkeeps.others j hjk] at hj
          exact hj
    | setPassthrough => trivial
    | closeClient => exact hscans
    | testThread => exact hscans
    | createThread => exact hscans
    | resetClientRing => exact hscans
    | resetServerRing => exact hscans
    | setClient => exact hscans
  · have he' : e ∈ new ++ s.log := hlog ▸ he
    rw [List.mem_append] at he'
    cases he' with
    | inl hnew =>
        right
        left
        rw [hactor e hnew]
        exact fun heq => nomatch heq
    | inr hold => exact Or.inl hold

/-- The next instruction of the call itself. -/
theorem callInv_startStep (h : CallInv before s client) {pc : StartPc}
    (hpc : s.acceptor = .start pc client passthrough i) (create : ThreadCreate) :
    CallInv before (handoverStep s (.acceptor create)) client := by
  have hscans := h.scans pc passthrough i hpc
  have hstep : handoverStep s (.acceptor create) = s.startStep create client passthrough i pc := by
    unfold handoverStep
    rw [hpc]
  refine ⟨inv_handoverStep h.inv _, (handoverStep_cnt s _).trans h.cnt, handoverStep_sockets s _ h.known,
    fun pc' passthrough' i' hpc' => ?_, ?_⟩
  · rw [hstep] at hpc' ⊢
    unfold Handover.startStep at hpc' ⊢
    cases pc with
    | testClient =>
        obtain ⟨hbefore, hlater⟩ := hscans
        dsimp only at hpc' ⊢
        by_cases hi : i < s.cnt
        · rw [if_pos hi] at hpc' ⊢
          by_cases hidle : (s.ctx i).clientSocket = invalidSocket
          · rw [if_pos hidle] at hpc' ⊢
            cases hpc'
            exact ⟨h.cnt ▸ hi, hbefore⟩
          · rw [if_neg hidle] at hpc' ⊢
            cases hpc'
            refine ⟨fun j hj => ?_, hlater⟩
            by_cases hji : j = i
            · rw [hji]
              exact hlater i hidle
            · exact hbefore j (by omega)
        · rw [if_neg hi] at hpc' ⊢
          cases hpc'
          intro j hj
          have hcnt := h.cnt
          exact hbefore j (by omega)
    | testThread =>
        dsimp only at hpc' ⊢
        split_ifs at hpc' ⊢
        · cases hpc'
          exact hscans
        · cases hpc'
          exact hscans
    | createThread =>
        dsimp only at hpc' ⊢
        split_ifs at hpc' ⊢
        · cases hpc'
        · cases hpc'
          exact hscans
    | resetClientRing =>
        cases hpc'
        exact hscans
    | resetServerRing =>
        cases hpc'
        exact hscans
    | setClient =>
        cases hpc'
        trivial
    | setPassthrough => cases hpc'
    | closeClient => cases hpc'
  · rw [hstep]
    have hsame : (s.startStep create client passthrough i pc).log = s.log →
        AsIfAtOnce before (s.startStep create client passthrough i pc) client :=
      fun hlog => asIfAtOnce_mono h.outcome fun e he => Or.inl (hlog ▸ he)
    cases pc with
    | setClient =>
        refine ⟨fun hmem => ?_, fun j hmem => ?_⟩
        · cases hmem with
          | tail _ hold => exact h.outcome.refused hold
        · cases hmem with
          | head => exact hscans
          | tail _ hold => exact h.outcome.placed j hold
    | closeClient =>
        refine ⟨fun hmem => ?_, fun j hmem => ?_⟩
        · cases hmem with
          | head => exact hscans
          | tail _ hold => exact h.outcome.refused hold
        · cases hmem with
          | tail _ hold => exact h.outcome.placed j hold
    | testClient =>
        apply hsame
        unfold Handover.startStep
        dsimp only
        split_ifs <;> rfl
    | testThread =>
        apply hsame
        unfold Handover.startStep
        dsimp only
        split_ifs <;> rfl
    | createThread =>
        apply hsame
        unfold Handover.startStep
        dsimp only
        split_ifs <;> rfl
    | resetClientRing => exact hsame rfl
    | resetServerRing => exact hsame rfl
    | setPassthrough => exact hsame rfl

/-- The acceptor serves another client. -/
theorem callInv_other (h : CallInv before s client) {pc : StartPc} {client' : ℤ}
    (hpc : s.acceptor = .start pc client' passthrough i) (hne : client' ≠ client)
    (create : ThreadCreate) : CallInv before (handoverStep s (.acceptor create)) client := by
  have hstep : handoverStep s (.acceptor create) = s.startStep create client' passthrough i pc := by
    unfold handoverStep
    rw [hpc]
  refine ⟨inv_handoverStep h.inv _, (handoverStep_cnt s _).trans h.cnt, handoverStep_sockets s _ h.known,
    fun pc' passthrough' i' hpc' => ?_, asIfAtOnce_mono h.outcome fun e he => ?_⟩
  · rw [hstep] at hpc'
    unfold Handover.startStep at hpc'
    cases pc <;> dsimp only at hpc' <;> (try split_ifs at hpc') <;>
      simp only [Handover.goto, AcceptorPc.start.injEq, reduceCtorEq] at hpc' <;>
      exact absurd hpc'.2.1 hne
  · rw [hstep] at he
    unfold Handover.startStep at he
    cases pc with
    | setClient =>
        cases he with
        | head => exact Or.inr (Or.inr hne)
        | tail _ hold => exact Or.inl hold
    | closeClient =>
        cases he with
        | head => exact Or.inr (Or.inr hne)
        | tail _ hold => exact Or.inl hold
    | testClient =>
        dsimp only at he
        split_ifs at he <;> exact Or.inl he
    | testThread =>
        dsimp only at he
        split_ifs at he <;> exact Or.inl he
    | createThread =>
        dsimp only at he
        split_ifs at he <;> exact Or.inl he
    | resetClientRing => exact Or.inl he
    | resetServerRing => exact Or.inl he
    | setPassthrough => exact Or.inl he

/-- **Whatever happens next keeps what the call knows.** -/
theorem callInv_step (h : CallInv before s client) (input : HandoverInput) :
    CallInv before (handoverStep s input) client := by
  cases input with
  | worker k event => exact callInv_worker h k event
  | acceptor create =>
      cases hpc : s.acceptor with
      | idle =>
          have hstep : handoverStep s (.acceptor create) = s := by
            unfold handoverStep
            rw [hpc]
          rw [hstep]
          exact h
      | start pc client' passthrough i =>
          by_cases hclient : client' = client
          · subst hclient
            exact callInv_startStep h hpc create
          · exact callInv_other h hpc hclient create
  | arrive client' passthrough =>
      have hinv := inv_handoverStep h.inv (.arrive client' passthrough)
      have hstep : handoverStep s (.arrive client' passthrough) = s.arrive client' passthrough := rfl
      rw [hstep] at hinv ⊢
      unfold Handover.arrive at hinv ⊢
      by_cases hgo : s.acceptor = .idle ∧ s.Fresh client'
      · rw [if_pos hgo] at hinv ⊢
        refine ⟨hinv, h.cnt, List.mem_cons_of_mem _ h.known, fun pc passthrough' i hpc => ?_,
          asIfAtOnce_mono h.outcome fun _ he => Or.inl he⟩
        cases hpc
        exact absurd h.known hgo.2.2
      · rw [if_neg hgo]
        exact h

/-! ## The call ends -/

/-- How many instructions the call still has before it, at most. -/
def callRank (cnt : ℕ) : AcceptorPc → ℕ
  | .idle => 0
  | .start .testClient _ _ i => cnt - i + 7
  | .start .testThread _ _ _ => 6
  | .start .createThread _ _ _ => 5
  | .start .resetClientRing _ _ _ => 4
  | .start .resetServerRing _ _ _ => 3
  | .start .setClient _ _ _ => 2
  | .start .setPassthrough _ _ _ => 1
  | .start .closeClient _ _ _ => 1

/-- A call that is under way has an instruction before it. -/
theorem callRank_pos (cnt : ℕ) {acceptor : AcceptorPc} (h : acceptor ≠ .idle) :
    0 < callRank cnt acceptor := by
  cases acceptor with
  | idle => exact absurd rfl h
  | start pc client passthrough i => cases pc <;> simp [callRank]

/-- Every instruction brings the call nearer to its end. -/
theorem callRank_startStep (s : Handover) (create : ThreadCreate) (pc : StartPc) :
    callRank s.cnt (s.startStep create client passthrough i pc).acceptor <
      callRank s.cnt (.start pc client passthrough i) := by
  unfold Handover.startStep
  cases pc with
  | testClient =>
      dsimp only
      split_ifs <;> simp only [Handover.goto, callRank] <;> omega
  | testThread =>
      dsimp only
      split_ifs <;> simp only [Handover.goto, callRank] <;> omega
  | createThread =>
      dsimp only
      split_ifs <;> simp only [Handover.goto, callRank] <;> omega
  | resetClientRing => exact Nat.lt_succ_self 3
  | resetServerRing => exact Nat.lt_succ_self 2
  | setClient => exact Nat.lt_succ_self 1
  | setPassthrough => exact Nat.lt_succ_self 0
  | closeClient => exact Nat.lt_succ_self 0

/-- **The call ends** when the acceptor has taken as many steps as it has instructions. -/
theorem call_ends {s : Handover} (hbusy : s.acceptor ≠ .idle) {inputs : List HandoverInput}
    (hcount : callRank s.cnt s.acceptor ≤ inputs.countP byAcceptor) :
    ∃ js, js <+: inputs ∧ (run handoverStep s js).acceptor = .idle := by
  refine @reaches_of_measure _ _ handoverStep (fun s => s.acceptor = .idle)
    (fun s => s.acceptor ≠ .idle) byAcceptor (fun s => callRank s.cnt s.acceptor)
    (fun s hbusy => callRank_pos s.cnt hbusy) (fun t input hbusy => ?_) s hbusy inputs hcount
  by_cases hidle : (handoverStep t input).acceptor = .idle
  · exact Or.inl hidle
  · refine Or.inr ⟨hidle, ?_⟩
    rw [handoverStep_cnt]
    cases input with
    | acceptor create =>
        have hlt : callRank t.cnt (handoverStep t (.acceptor create)).acceptor <
            callRank t.cnt t.acceptor := by
          unfold handoverStep
          cases hpc : t.acceptor with
          | idle => exact absurd hpc hbusy
          | start pc client passthrough i => exact callRank_startStep t create pc
        exact ⟨hlt.le, fun _ => hlt⟩
    | arrive client passthrough =>
        have hsame : t.arrive client passthrough = t := if_neg fun hgo => hbusy hgo.1
        rw [show handoverStep t (.arrive client passthrough) = t from hsame]
        exact ⟨le_rfl, fun hmine => nomatch hmine⟩
    | worker k event =>
        rw [show (handoverStep t (.worker k event)).acceptor = t.acceptor from
          (workerStep_frame t k event).acceptor]
        exact ⟨le_rfl, fun hmine => nomatch hmine⟩

/-- What a call has settled stays so. -/
theorem settled_mono {s : Handover} (h : Settled s client) (input : HandoverInput) :
    Settled (handoverStep s input) client := by
  cases h with
  | inl hplaced =>
      obtain ⟨i, hmem⟩ := hplaced
      exact Or.inl ⟨i, log_mono s input hmem⟩
  | inr hrefused => exact Or.inr (log_mono s input hrefused)

/-- Unless a `pthread_create` has failed, the call goes on or has settled its client. -/
theorem settled_step {s : Handover} (h : carries s.acceptor client ∨ Settled s client)
    {input : HandoverInput}
    (hcreate : ∀ create, input = .acceptor create → create.result = 0) :
    carries (handoverStep s input).acceptor client ∨ Settled (handoverStep s input) client := by
  cases h with
  | inr hsettled => exact Or.inr (settled_mono hsettled input)
  | inl hcarries =>
      cases input with
      | worker k event =>
          left
          rw [show (handoverStep s (.worker k event)).acceptor = s.acceptor from
            (workerStep_frame s k event).acceptor]
          exact hcarries
      | arrive client' passthrough =>
          left
          show carries (s.arrive client' passthrough).acceptor client
          unfold Handover.arrive
          split_ifs with hgo
          · rw [hgo.1] at hcarries
            exact hcarries.elim
          · exact hcarries
      | acceptor create =>
          have hresult := hcreate create rfl
          unfold handoverStep
          cases hpc : s.acceptor with
          | idle =>
              rw [hpc] at hcarries
              exact hcarries.elim
          | start pc client' passthrough i =>
              rw [hpc] at hcarries
              obtain ⟨hcarrying, rfl⟩ := hcarries
              dsimp only
              unfold Handover.startStep
              cases pc with
              | testClient =>
                  left
                  dsimp only
                  split_ifs <;> exact ⟨rfl, rfl⟩
              | testThread =>
                  left
                  dsimp only
                  split_ifs <;> exact ⟨rfl, rfl⟩
              | createThread =>
                  left
                  dsimp only
                  rw [if_neg (not_not.mpr hresult)]
                  exact ⟨rfl, rfl⟩
              | resetClientRing => exact Or.inl ⟨rfl, rfl⟩
              | resetServerRing => exact Or.inl ⟨rfl, rfl⟩
              | setClient => exact Or.inr (Or.inl ⟨i, List.mem_cons_self⟩)
              | closeClient => exact Or.inr (Or.inr List.mem_cons_self)
              | setPassthrough => cases hcarrying

/-- The same of a run in which no `pthread_create` fails. -/
theorem run_settled {s : Handover} (h : carries s.acceptor client ∨ Settled s client)
    {inputs : List HandoverInput}
    (hcreate : ∀ create, .acceptor create ∈ inputs → create.result = 0) :
    carries (run handoverStep s inputs).acceptor client ∨
      Settled (run handoverStep s inputs) client := by
  have hok : Along handoverStep (fun _ input => ∀ create, input = .acceptor create →
      create.result = 0) s inputs := by
    refine along_of_forall (fun input hmem _ create heq => ?_) s
    rw [heq] at hmem
    exact hcreate create hmem
  exact run_invariant_of _ (fun s => carries s.acceptor client ∨ Settled s client)
    (fun _ _ h hok => settled_step h hok) h hok

/-- **A call of `smbgw_proxy_start` beside the workers.** Whatever has gone `before` and whatever
goes on `during` the call: a client is refused only if every context was busy when the call
began, and is placed in front of no context that was free then. The call is over after `cnt + 7` steps of
the acceptor at most, whatever the workers do, and if no `pthread_create` has failed it has settled
the client. -/
theorem start_call_as_if_at_once (maxConnections : ℕ) (size : ℤ)
    (clientData serverData : ℕ → ℤ → UInt8) (earlier during : List HandoverInput) (client : ℤ)
    (passthrough : Bool) :
    let before := run handoverStep (Handover.init maxConnections size clientData serverData) earlier
    let after := run handoverStep before (.arrive client passthrough :: during)
    before.acceptor = .idle → before.Fresh client →
      AsIfAtOnce before after client ∧
      (maxConnections + 7 ≤ during.countP byAcceptor →
        (∃ js, js <+: during ∧
          (run handoverStep before (.arrive client passthrough :: js)).acceptor = .idle) ∧
        ((∀ create, .acceptor create ∈ during → create.result = 0) → Settled after client)) := by
  intro before after hidle hfresh
  have hinv : Inv before := run_invariant Inv (fun _ input h => inv_handoverStep h input)
    (inv_init maxConnections size clientData serverData) earlier
  have hcnt : before.cnt = maxConnections := run_cnt _ earlier
  have hcall := @callInv_arrive before client passthrough hinv hidle hfresh
  refine ⟨(run_invariant (fun s => CallInv before s client) (fun _ input h => callInv_step h input)
    hcall during).outcome, fun hcount => ?_⟩
  -- The call is over after some of the steps, and what it has settled stays so.
  have hstart : (handoverStep before (.arrive client passthrough)).acceptor =
      .start .testClient client passthrough 0 := by
    show (before.arrive client passthrough).acceptor = _
    unfold Handover.arrive
    rw [if_pos ⟨hidle, hfresh⟩]
    rfl
  have hrank : callRank (handoverStep before (.arrive client passthrough)).cnt
      (handoverStep before (.arrive client passthrough)).acceptor ≤ during.countP byAcceptor := by
    rw [hstart, handoverStep_cnt, hcnt]
    exact hcount
  obtain ⟨js, hjs, hdone⟩ := call_ends (by rw [hstart]; exact fun heq => nomatch heq) hrank
  refine ⟨⟨js, hjs, hdone⟩, fun hcreate => ?_⟩
  obtain ⟨rest, rfl⟩ := hjs
  have hover := run_settled
    (Or.inl (by rw [hstart]; exact ⟨rfl, rfl⟩) :
      carries (handoverStep before (.arrive client passthrough)).acceptor client ∨ Settled _ client)
    fun create hmem => hcreate create (List.mem_append_left rest hmem)
  rw [hdone] at hover
  have hsettled := hover.resolve_left fun hno => hno
  have hafter : after = run handoverStep
      (run handoverStep (handoverStep before (.arrive client passthrough)) js) rest := by
    show run handoverStep before (.arrive client passthrough :: (js ++ rest)) = _
    rw [run_cons, run_append]
  rw [hafter]
  exact run_invariant (fun s => Settled s client) (fun _ input h => settled_mono h input) hsettled rest

/-- With one context, the second client is refused. -/
theorem start_call_as_if_at_once_second :
    let earlier : List HandoverInput :=
      .arrive 5 false :: List.replicate 7 (.acceptor ⟨0, 1, by decide⟩)
    let during : List HandoverInput := List.replicate 8 (.acceptor ⟨0, 1, by decide⟩)
    let before := run handoverStep (Handover.init 1 16 (fun _ _ => 0) fun _ _ => 0) earlier
    let after := run handoverStep before (.arrive 6 false :: during)
    .close .acceptor 6 ∈ after.log ∧ AsIfAtOnce before after 6 ∧ Settled after 6 ∧
      ∃ js, js <+: during ∧
        (run handoverStep before (.arrive 6 false :: js)).acceptor = .idle := by
  intro earlier during before after
  obtain ⟨houtcome, hcall⟩ := start_call_as_if_at_once 1 16 (fun _ _ => 0) (fun _ _ => 0) earlier
    during 6 false (by decide) (by decide)
  obtain ⟨hends, hsettled⟩ := hcall (by decide)
  refine ⟨by decide, houtcome, hsettled fun create hmem => ?_, hends⟩
  rw [List.eq_of_mem_replicate hmem |> HandoverInput.acceptor.inj]

end SmbProxy.Analysis
