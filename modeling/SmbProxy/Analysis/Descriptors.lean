import SmbProxy.Analysis.Recovery

/-!
# No socket is lost but by a failing `pthread_create`

A socket that is not closed is the client the acceptor has in hand, the `client_socket` of a
context, or the `server_socket` of a context whose worker has still to close it (`Place`).
The exception is a client whose thread could not be created: `smbgw_proxy_start` returns
without closing it, and nothing happens to it any more. So there is room for two sockets a
context and one client in hand beside the clients lost that way, and when nothing is left to
do these are the only open sockets (`open_sockets`).
-/

set_option autoImplicit false

namespace SmbProxy.Analysis

open SmbProxy.Library SmbProxy.Model SmbProxy.Interface

/-- The worker has still to close its server socket, if it has one. -/
def keepsServer : WorkerPc → Bool
  | .closeServer => true
  | pc => serving pc

/-- Where the code finds a socket, or that it is closed. -/
inductive Place (s : Handover) (socket : ℤ) : Prop
  | closed : Closed s.log socket → Place s socket
  | carried : carries s.acceptor socket → Place s socket
  | client (i : ℕ) : i < s.cnt → (s.ctx i).clientSocket = socket → Place s socket
  | server (i : ℕ) : i < s.cnt → keepsServer (s.worker i) = true →
      (s.ctx i).serverSocket = socket → Place s socket

/-- Every socket but the lost ones is in its place, and to these nothing happens. -/
structure Ledger (lost : List ℤ) (s : Handover) : Prop where
  inv : Inv s
  nodup : s.sockets.Nodup
  valid : ∀ socket ∈ s.sockets, 0 ≤ socket
  present : ∀ i, s.worker i ≠ .absent → i < s.cnt
  target : ∀ i, targets s.acceptor i → i < s.cnt
  placed : ∀ socket ∈ s.sockets, socket ∉ lost → Place s socket
  lost_nodup : lost.Nodup
  lost_known : ∀ socket ∈ lost, socket ∈ s.sockets
  lost_apart : ∀ socket ∈ lost, ¬ carries s.acceptor socket ∧ ∀ e ∈ s.log, subject e ≠ socket

/-! ## Where an event comes from -/

/-- Every event is about a socket that was installed, refused or opened. -/
theorem origin {log : List SocketEvent} (h : WellLogged log) {e : SocketEvent} (he : e ∈ log) :
    (∃ i, .install i (subject e) ∈ log) ∨ .close .acceptor (subject e) ∈ log ∨
      ∃ i client, .openServer i client (subject e) ∈ log := by
  induction h with
  | nil => cases he
  | @cons e' log hallowed _ ih =>
      cases he with
      | head =>
          cases hallowed with
          | @install i client hnew => exact Or.inl ⟨i, List.mem_cons_self⟩
          | refuse hnew => exact Or.inr (Or.inl List.mem_cons_self)
          | @close i client hinstalled hopen =>
              exact Or.inl ⟨i, List.mem_cons_of_mem _ hinstalled⟩
          | @openServer i client server hnew =>
              exact Or.inr (Or.inr ⟨i, client, List.mem_cons_self⟩)
          | @closeServer i client server hopen =>
              exact Or.inr (Or.inr ⟨i, client, List.mem_cons_of_mem _ hopen⟩)
      | tail _ he =>
          rcases ih he with ⟨i, hmem⟩ | hmem | ⟨i, client, hmem⟩
          · exact Or.inl ⟨i, List.mem_cons_of_mem e' hmem⟩
          · exact Or.inr (Or.inl (List.mem_cons_of_mem e' hmem))
          · exact Or.inr (Or.inr ⟨i, client, List.mem_cons_of_mem e' hmem⟩)

section Steps

variable {s : Handover} {lost : List ℤ} {socket : ℤ} {i : ℕ}

/-- The acceptor logs what it does with the client it has in hand. -/
theorem startStep_subject (s : Handover) (create : ThreadCreate) (client : ℤ) (passthrough : Bool)
    (k : ℕ) (pc : StartPc) {e : SocketEvent}
    (he : e ∈ (s.startStep create client passthrough k pc).log) :
    e ∈ s.log ∨ carrying pc = true ∧ subject e = client := by
  unfold Handover.startStep at he
  cases pc with
  | setClient =>
      cases he with
      | head => exact Or.inr ⟨rfl, rfl⟩
      | tail _ he => exact Or.inl he
  | closeClient =>
      cases he with
      | head => exact Or.inr ⟨rfl, rfl⟩
      | tail _ he => exact Or.inl he
  | testClient =>
      left
      dsimp only at he
      split_ifs at he <;> exact he
  | testThread =>
      left
      dsimp only at he
      split_ifs at he <;> exact he
  | createThread =>
      left
      dsimp only at he
      split_ifs at he <;> exact he
  | resetClientRing => exact Or.inl he
  | resetServerRing => exact Or.inl he
  | setPassthrough => exact Or.inl he

/-- What happens to a worker's sockets has happened before, or happens to a new socket. -/
theorem workerStep_subject (h : Inv s) (event : WorkerEvent) {e : SocketEvent}
    (he : e ∈ (s.workerStep i event).log) :
    (∃ e' ∈ s.log, subject e' = subject e) ∨ subject e ∉ s.sockets := by
  have hframe := workerStep_frame s i event
  have hinstalled : ∀ e' ∈ (s.workerStep i event).log, actor e' = .acceptor → e' ∈ s.log := by
    intro e' he' hactor
    obtain ⟨new, hlog, hnew⟩ := hframe.events
    rw [hlog] at he'
    rcases List.mem_append.mp he' with hmem | hmem
    · have := hnew e' hmem
      rw [hactor] at this
      cases this
    · exact hmem
  rcases origin (inv_workerStep h event).logged he with ⟨j, hmem⟩ | hmem | ⟨j, client, hmem⟩
  · exact Or.inl ⟨_, hinstalled _ hmem rfl, rfl⟩
  · exact Or.inl ⟨_, hinstalled _ hmem rfl, rfl⟩
  · rcases opened_of_step s (.worker i event) hmem with hold | ⟨-, -, -, hfresh⟩
    · exact Or.inl ⟨_, hold, rfl⟩
    · exact Or.inr hfresh.2

/-! ## The acceptor -/

/-- **The client in hand** stays there, is closed, comes into a context, or is lost. -/
theorem carried_startStep (create : ThreadCreate) {client : ℤ} {passthrough : Bool} {k : ℕ}
    {pc : StartPc} (hpc : s.acceptor = .start pc client passthrough k)
    (hcarrying : carrying pc = true) (htarget : ∀ i, targets s.acceptor i → i < s.cnt) :
    Place (s.startStep create client passthrough k pc) client ∨
      createFails s (.acceptor create) = true := by
  have hgo : ∀ (s' : Handover) (pc' : StartPc), carrying pc' = true →
      Place (s'.goto (.start pc' client passthrough k)) client :=
    fun s' pc' hcarrying' => .carried ⟨hcarrying', rfl⟩
  unfold Handover.startStep
  cases pc with
  | testClient =>
      left
      dsimp only
      split_ifs
      · exact hgo s .testThread rfl
      · exact .carried ⟨rfl, rfl⟩
      · exact hgo s .closeClient rfl
  | testThread =>
      left
      dsimp only
      split_ifs
      · exact hgo s .createThread rfl
      · exact hgo s .resetClientRing rfl
  | createThread =>
      dsimp only
      split_ifs with hresult
      · right
        simpa [createFails, hpc] using hresult
      · exact Or.inl (hgo _ .resetClientRing rfl)
  | resetClientRing => exact Or.inl (hgo _ .resetServerRing rfl)
  | resetServerRing => exact Or.inl (hgo _ .setClient rfl)
  | setClient =>
      have hk : k < s.cnt := htarget k (by rw [hpc]; exact ⟨rfl, rfl⟩)
      refine Or.inl (.client k hk ?_)
      show (Function.update s.ctx k { s.ctx k with clientSocket := client } k).clientSocket = client
      rw [Function.update_self]
  | setPassthrough => cases hcarrying
  | closeClient =>
      refine Or.inl (.closed ⟨.close .acceptor client, List.mem_cons_self, ?_⟩)
      simp [closes]

/-- The acceptor has no other client in hand than before, and none any more when it has failed. -/
theorem carries_startStep (create : ThreadCreate) {client : ℤ} {passthrough : Bool} {k : ℕ}
    {pc : StartPc} (hpc : s.acceptor = .start pc client passthrough k)
    (hcarries : carries (s.startStep create client passthrough k pc).acceptor socket) :
    carries s.acceptor socket ∧ createFails s (.acceptor create) = false := by
  rw [hpc]
  unfold Handover.startStep at hcarries
  cases pc with
  | testClient =>
      dsimp only at hcarries
      split_ifs at hcarries <;> exact ⟨hcarries, by simp [createFails, hpc]⟩
  | testThread =>
      dsimp only at hcarries
      split_ifs at hcarries <;> exact ⟨hcarries, by simp [createFails, hpc]⟩
  | createThread =>
      dsimp only at hcarries
      split_ifs at hcarries with hresult
      · exact hcarries.elim
      · exact ⟨hcarries, by simpa [createFails, hpc] using hresult⟩
  | resetClientRing => exact ⟨hcarries, by simp [createFails, hpc]⟩
  | resetServerRing => exact ⟨hcarries, by simp [createFails, hpc]⟩
  | setClient => exact absurd hcarries.1 (by decide)
  | setPassthrough => exact hcarries.elim
  | closeClient => exact hcarries.elim

/-- A worker with a server socket is there. -/
theorem present_of_keepsServer (h : keepsServer (s.worker i) = true) : s.worker i ≠ .absent := by
  intro hpc
  rw [hpc] at h
  cases h

/-- The acceptor works at contexts of the pool only. -/
theorem targets_startStep (create : ThreadCreate) {client : ℤ} {passthrough : Bool} {k : ℕ}
    {pc : StartPc} (hpc : s.acceptor = .start pc client passthrough k)
    (htarget : ∀ i, targets s.acceptor i → i < s.cnt)
    (htargets : targets (s.startStep create client passthrough k pc).acceptor i) : i < s.cnt := by
  rw [hpc] at htarget
  unfold Handover.startStep at htargets
  cases pc with
  | testClient =>
      dsimp only at htargets
      split_ifs at htargets with hk
      · obtain ⟨-, rfl⟩ := htargets
        exact hk
      · exact absurd htargets.1 (by decide)
      · exact absurd htargets.1 (by decide)
  | testThread =>
      dsimp only at htargets
      split_ifs at htargets <;> exact htarget i ⟨rfl, htargets.2⟩
  | createThread =>
      dsimp only at htargets
      split_ifs at htargets
      · exact htargets.elim
      · exact htarget i ⟨rfl, htargets.2⟩
  | resetClientRing => exact htarget i ⟨rfl, htargets.2⟩
  | resetServerRing => exact htarget i ⟨rfl, htargets.2⟩
  | setClient => exact absurd htargets.1 (by decide)
  | setPassthrough => exact htargets.elim
  | closeClient => exact htargets.elim

/-- A step of the acceptor leaves a socket in its place, or it is the client that is lost. -/
theorem place_acceptor (h : Ledger lost s) (create : ThreadCreate) (hvalid : socket ≠ invalidSocket)
    (hplace : Place s socket) : Place (handoverStep s (.acceptor create)) socket ∨
      createFails s (.acceptor create) = true ∧ carries s.acceptor socket := by
  have hcnt := handoverStep_cnt s (.acceptor create)
  have hother : ∀ i event, HandoverInput.acceptor create ≠ .worker i event := by
    rintro i event ⟨⟩
  cases hplace with
  | closed hclosed => exact Or.inl (.closed (closed_mono s _ hclosed))
  | carried hcarries =>
      unfold handoverStep
      cases hpc : s.acceptor with
      | idle =>
          rw [hpc] at hcarries
          exact hcarries.elim
      | start pc client passthrough k =>
          have hcarried := hcarries
          rw [hpc] at hcarried
          obtain ⟨hcarrying, rfl⟩ := hcarried
          cases carried_startStep create hpc hcarrying h.target with
          | inl hplace => exact Or.inl hplace
          | inr hfails => exact Or.inr ⟨hfails, hpc ▸ hcarries⟩
  | client i hi hclient =>
      refine Or.inl (.client i (hcnt.symm ▸ hi) ?_)
      rw [(others_keep h.inv (hclient.symm ▸ hvalid) (hother i)).client, hclient]
  | server i hi hkeeps hserver =>
      refine Or.inl (.server i (hcnt.symm ▸ hi) ?_ ?_)
      · rw [worker_of_other_present h.inv (present_of_keepsServer hkeeps) (hother i)]
        exact hkeeps
      · rw [server_of_other s (hother i), hserver]

/-! ## A worker -/

/-- **A server socket** stays where it is until it is closed. -/
theorem server_kept (s : Handover) (i : ℕ) (event : WorkerEvent)
    (hkeeps : keepsServer (s.worker i) = true) (hvalid : (s.ctx i).serverSocket ≠ invalidSocket) :
    Closed (s.workerStep i event).log (s.ctx i).serverSocket ∨
      keepsServer ((s.workerStep i event).worker i) = true ∧
        ((s.workerStep i event).ctx i).serverSocket = (s.ctx i).serverSocket := by
  unfold Handover.workerStep
  cases hpc : s.worker i with
  | testServer =>
      simp only [if_neg hvalid, workerAt_worker]
      exact Or.inr ⟨rfl, rfl⟩
  | proxy =>
      right
      cases event with
      | traffic clientRing serverRing =>
          refine ⟨hkeeps, ?_⟩
          simp [Handover.update]
      | ending => exact ⟨by simp [keepsServer, serving], rfl⟩
      | run => exact ⟨hkeeps, rfl⟩
      | connect event => exact ⟨hkeeps, rfl⟩
  | testClient =>
      right
      dsimp only
      split_ifs <;> exact ⟨by simp [keepsServer, serving], rfl⟩
  | closeClient => exact Or.inr ⟨by simp [keepsServer, serving], rfl⟩
  | clearClient =>
      right
      refine ⟨by simp [keepsServer, serving], ?_⟩
      simp [Handover.update, Handover.workerAt]
  | testServerEnd =>
      simp only [if_pos hvalid, workerAt_worker]
      exact Or.inr ⟨rfl, rfl⟩
  | closeServer =>
      refine Or.inl ⟨.closeServer i (s.seen i) (s.ctx i).serverSocket, List.mem_cons_self, ?_⟩
      simp [closes]
  | absent => simp [hpc, keepsServer, serving] at hkeeps
  | wait => simp [hpc, keepsServer, serving] at hkeeps
  | testSeen => simp [hpc, keepsServer, serving] at hkeeps
  | connect => simp [hpc, keepsServer, serving] at hkeeps
  | connecting => simp [hpc, keepsServer, serving] at hkeeps
  | closeEarly => simp [hpc, keepsServer, serving] at hkeeps
  | clearEarly => simp [hpc, keepsServer, serving] at hkeeps
  | clearServer => simp [hpc, keepsServer, serving] at hkeeps

/-- Only `tcp_connect` gets a socket. -/
theorem workerStep_sockets (hpc : s.worker i ≠ .connecting) (event : WorkerEvent) :
    (s.workerStep i event).sockets = s.sockets := by
  unfold Handover.workerStep
  cases hpc' : s.worker i with
  | connecting => exact absurd hpc' hpc
  | proxy => cases event <;> rfl
  | wait => dsimp only; split_ifs <;> rfl
  | testSeen => dsimp only; split_ifs <;> rfl
  | testServer => dsimp only; split_ifs <;> rfl
  | testClient => dsimp only; split_ifs <;> rfl
  | testServerEnd => dsimp only; split_ifs <;> rfl
  | absent => rfl
  | connect => rfl
  | closeEarly => rfl
  | clearEarly => rfl
  | closeClient => rfl
  | clearClient => rfl
  | closeServer => rfl
  | clearServer => rfl

/-- **A new server socket** is closed again or stored. -/
theorem server_placed (h : Ledger lost s) (event : WorkerEvent)
    (hmem : socket ∈ (s.workerStep i event).sockets) (hnew : socket ∉ s.sockets) :
    Place (s.workerStep i event) socket := by
  by_cases hpc : s.worker i = .connecting
  · have hi : i < s.cnt := h.present i (by rw [hpc]; decide)
    unfold Handover.workerStep at hmem ⊢
    simp only [hpc] at hmem ⊢
    cases event with
    | connect event =>
        unfold Handover.connectStep at hmem ⊢
        cases event with
        | noSocket => exact absurd hmem hnew
        | refused server =>
            dsimp only at hmem ⊢
            split_ifs at hmem ⊢ with hfresh
            · obtain rfl : socket = server := (List.mem_cons.mp hmem).resolve_right hnew
              refine .closed ⟨.closeServer i (s.seen i) socket, List.mem_cons_self, ?_⟩
              simp [closes]
            · exact absurd hmem hnew
        | connected server =>
            dsimp only at hmem ⊢
            split_ifs at hmem ⊢ with hfresh
            · obtain rfl : socket = server := (List.mem_cons.mp hmem).resolve_right hnew
              refine .server i hi ?_ ?_
              · simp [keepsServer, serving]
              · simp [Handover.update, Handover.workerAt]
            · exact absurd hmem hnew
    | run => exact absurd hmem hnew
    | traffic clientRing serverRing => exact absurd hmem hnew
    | ending => exact absurd hmem hnew
  · rw [workerStep_sockets hpc event] at hmem
    exact absurd hmem hnew

/-- A step of a worker leaves a socket in its place, or closes it. -/
theorem place_worker (h : Ledger lost s) (k : ℕ) (event : WorkerEvent)
    (hvalid : socket ≠ invalidSocket) (hplace : Place s socket) :
    Place (handoverStep s (.worker k event)) socket := by
  have hframe := workerStep_frame s k event
  have hcnt : ∀ {i}, i < s.cnt → i < (s.workerStep k event).cnt := fun hi => hframe.cnt.symm ▸ hi
  cases hplace with
  | closed hclosed => exact .closed (closed_mono s _ hclosed)
  | carried hcarries => exact .carried (hframe.acceptor.symm ▸ hcarries)
  | client i hi hclient =>
      by_cases hik : i = k
      · subst hik
        rcases (workerStep_keeps s i event).client with hkept | ⟨hclearing, -⟩
        · exact .client i (hcnt hi) (hkept.trans hclient)
        · -- The worker has closed the client before it clears the field.
          have hseen := ((h.inv.ctx i).inside (inside_of_clearing hclearing)).1
          have hclosed : Closed s.log socket := by
            refine ⟨_, (h.inv.ctx i).closed hclearing, ?_⟩
            simp [closes, ← hseen, hclient]
          exact .closed (closed_mono s _ hclosed)
      · refine .client i (hcnt hi) ?_
        show ((s.workerStep k event).ctx i).clientSocket = socket
        rw [(hframe.ctx i hik).1, hclient]
  | server i hi hkeeps hserver =>
      by_cases hik : i = k
      · subst hik
        rcases server_kept s i event hkeeps (hserver.symm ▸ hvalid) with hclosed | ⟨hkeeps', hsame⟩
        · exact .closed (hserver ▸ hclosed)
        · exact .server i (hcnt hi) hkeeps' (hsame.trans hserver)
      · obtain ⟨hctx, hworker⟩ := hframe.ctx i hik
        refine .server i (hcnt hi) ?_ ?_
        · show keepsServer ((s.workerStep k event).worker i) = true
          rw [hworker, hkeeps]
        · show ((s.workerStep k event).ctx i).serverSocket = socket
          rw [hctx, hserver]

/-! ## The ledger -/

/-- The acceptor takes no sockets in a call. -/
theorem acceptor_sockets (s : Handover) (create : ThreadCreate) :
    (handoverStep s (.acceptor create)).sockets = s.sockets := by
  unfold handoverStep
  cases hpc : s.acceptor with
  | idle => rfl
  | start pc client passthrough k => exact (startStep_cnt s create client passthrough k pc).2

/-- At most one socket is handed out in a step, and to the acceptor or a worker in
`tcp_connect`. -/
theorem sockets_step (s : Handover) (input : HandoverInput) :
    (handoverStep s input).sockets = s.sockets ∨
      ∃ socket, s.Fresh socket ∧ (handoverStep s input).sockets = socket :: s.sockets := by
  cases input with
  | arrive client passthrough =>
      show (s.arrive client passthrough).sockets = s.sockets ∨
        ∃ socket, s.Fresh socket ∧ (s.arrive client passthrough).sockets = socket :: s.sockets
      unfold Handover.arrive
      split_ifs with hfresh
      · exact Or.inr ⟨client, hfresh.2, rfl⟩
      · exact Or.inl rfl
  | acceptor create => exact Or.inl (acceptor_sockets s create)
  | worker k event => exact (workerStep_frame s k event).sockets

/-- A worker is created for a context there is. -/
theorem present_step (h : Ledger lost s) (input : HandoverInput)
    (hpresent : (handoverStep s input).worker i ≠ .absent) : i < s.cnt := by
  by_cases hown : ∃ event, input = .worker i event
  · obtain ⟨event, rfl⟩ := hown
    apply h.present i
    intro hpc
    have hmoves := workerStep_moves s i event
    rw [hpc, successors, List.mem_singleton] at hmoves
    exact hpresent hmoves
  · by_cases hbefore : s.worker i = .absent
    · cases input with
      | arrive client passthrough =>
          refine absurd ?_ hpresent
          unfold handoverStep Handover.arrive
          dsimp only
          split_ifs <;> exact hbefore
      | acceptor create =>
          unfold handoverStep at hpresent
          cases hpc : s.acceptor with
          | idle =>
              simp only [hpc] at hpresent
              exact absurd hbefore hpresent
          | start pc client passthrough k =>
              simp only [hpc] at hpresent
              rcases startStep_worker s create client passthrough k i pc with
                hsame | ⟨rfl, rfl, -⟩
              · rw [hsame] at hpresent
                exact absurd hbefore hpresent
              · apply h.target i
                rw [hpc]
                exact ⟨rfl, rfl⟩
      | worker k event =>
          have hik : i ≠ k := by
            rintro rfl
            exact hown ⟨event, rfl⟩
          have hworker := ((workerStep_frame s k event).ctx i hik).2
          exact absurd (hworker.trans hbefore) hpresent
    · exact h.present i hbefore

/-- The same in every step. -/
theorem target_step (h : Ledger lost s) (input : HandoverInput)
    (htargets : targets (handoverStep s input).acceptor i) : i < s.cnt := by
  cases input with
  | arrive client passthrough =>
      unfold handoverStep Handover.arrive at htargets
      dsimp only at htargets
      split_ifs at htargets
      · exact absurd htargets.1 (by decide)
      · exact h.target i htargets
  | acceptor create =>
      unfold handoverStep at htargets
      cases hpc : s.acceptor with
      | idle =>
          simp only [hpc] at htargets
          exact htargets.elim
      | start pc client passthrough k =>
          simp only [hpc] at htargets
          exact targets_startStep create hpc h.target htargets
  | worker k event =>
      have hacceptor := (workerStep_frame s k event).acceptor
      exact h.target i (hacceptor ▸ htargets)

/-- **Nothing happens to a lost client.** -/
theorem apart_step (h : Inv s) (input : HandoverInput) (hmem : socket ∈ s.sockets)
    (hcarries : ¬ carries s.acceptor socket) (hapart : ∀ e ∈ s.log, subject e ≠ socket) :
    ¬ carries (handoverStep s input).acceptor socket ∧
      ∀ e ∈ (handoverStep s input).log, subject e ≠ socket := by
  cases input with
  | arrive client passthrough =>
      unfold handoverStep Handover.arrive
      dsimp only
      split_ifs with hfresh
      · refine ⟨?_, hapart⟩
        rintro ⟨-, rfl⟩
        exact hfresh.2.2 hmem
      · exact ⟨hcarries, hapart⟩
  | acceptor create =>
      unfold handoverStep
      cases hpc : s.acceptor with
      | idle =>
          dsimp only
          exact ⟨hcarries, hapart⟩
      | start pc client passthrough k =>
          refine ⟨fun hcarries' => hcarries (carries_startStep create hpc hcarries').1, ?_⟩
          rintro e he rfl
          rcases startStep_subject s create client passthrough k pc he with hold | ⟨hcarrying, hclient⟩
          · exact hapart e hold rfl
          · rw [hpc] at hcarries
            exact hcarries ⟨hcarrying, hclient⟩
  | worker k event =>
      have hframe := workerStep_frame s k event
      refine ⟨hframe.acceptor.symm ▸ hcarries, ?_⟩
      rintro e he rfl
      rcases workerStep_subject h event he with ⟨e', he', hsubject⟩ | hnew
      · exact hapart e' he' hsubject
      · exact hnew hmem

/-- **Every socket is in its place** after a step, or it is the client that is lost. -/
theorem placed_step (h : Ledger lost s) (input : HandoverInput)
    (hmem : socket ∈ (handoverStep s input).sockets) (hlost : socket ∉ lost) :
    Place (handoverStep s input) socket ∨
      createFails s input = true ∧ carries s.acceptor socket := by
  have hvalid : socket ∈ s.sockets → socket ≠ invalidSocket := fun hold =>
    (Int.lt_of_lt_of_le (by decide) (h.valid socket hold)).ne'
  cases input with
  | arrive client passthrough =>
      left
      revert hmem
      unfold handoverStep Handover.arrive
      dsimp only
      split_ifs with hfresh
      · intro hmem
        cases hmem with
        | head => exact .carried ⟨rfl, rfl⟩
        | tail _ hold =>
            cases h.placed socket hold hlost with
            | closed hclosed => exact .closed hclosed
            | carried hcarries =>
                rw [hfresh.1] at hcarries
                exact hcarries.elim
            | client i hi hclient => exact .client i hi hclient
            | server i hi hkeeps hserver => exact .server i hi hkeeps hserver
      · exact fun hmem => h.placed socket hmem hlost
  | acceptor create =>
      have hold : socket ∈ s.sockets := acceptor_sockets s create ▸ hmem
      exact place_acceptor h create (hvalid hold) (h.placed socket hold hlost)
  | worker k event =>
      by_cases hold : socket ∈ s.sockets
      · exact Or.inl (place_worker h k event (hvalid hold) (h.placed socket hold hlost))
      · exact Or.inl (server_placed h event hmem hold)

/-- A client whose thread could not be created leaves the acceptor's hand. -/
theorem lost_of_createFails (s : Handover) (input : HandoverInput)
    (hfails : createFails s input = true) :
    ∃ client, (∀ socket, carries s.acceptor socket ↔ socket = client) ∧
      (∀ socket, ¬ carries (handoverStep s input).acceptor socket) ∧
        (handoverStep s input).log = s.log := by
  cases input with
  | arrive client passthrough => cases hfails
  | worker k event => cases hfails
  | acceptor create =>
      have hend : ∀ socket, ¬ carries (handoverStep s (.acceptor create)).acceptor socket := by
        intro socket hcarries
        cases hpc : s.acceptor with
        | idle => simp [createFails, hpc] at hfails
        | start pc client passthrough k =>
            simp only [handoverStep, hpc] at hcarries
            rw [(carries_startStep create hpc hcarries).2] at hfails
            cases hfails
      cases hpc : s.acceptor with
      | idle => simp [createFails, hpc] at hfails
      | start pc client passthrough k =>
          cases pc with
          | createThread =>
              refine ⟨client, fun socket => ⟨fun hcarries => hcarries.2, fun hsocket => ⟨rfl, hsocket⟩⟩,
                hend, ?_⟩
              unfold handoverStep Handover.startStep
              simp only [hpc]
              split_ifs <;> rfl
          | testClient => simp [createFails, hpc] at hfails
          | testThread => simp [createFails, hpc] at hfails
          | resetClientRing => simp [createFails, hpc] at hfails
          | resetServerRing => simp [createFails, hpc] at hfails
          | setClient => simp [createFails, hpc] at hfails
          | setPassthrough => simp [createFails, hpc] at hfails
          | closeClient => simp [createFails, hpc] at hfails

/-- **A step keeps the ledger**, and loses a client if a thread cannot be created. -/
theorem ledger_step (h : Ledger lost s) (input : HandoverInput) :
    ∃ lost', lost'.length = lost.length + (createFails s input).toNat ∧
      Ledger lost' (handoverStep s input) := by
  have hcnt := handoverStep_cnt s input
  have hkept : ∀ socket, socket ∈ s.sockets → socket ∈ (handoverStep s input).sockets :=
    fun socket => handoverStep_sockets s input
  have hnodup : (handoverStep s input).sockets.Nodup := by
    rcases sockets_step s input with hsame | ⟨socket, hfresh, hcons⟩
    · rw [hsame]
      exact h.nodup
    · rw [hcons]
      exact List.nodup_cons.mpr ⟨hfresh.2, h.nodup⟩
  have hvalid : ∀ socket ∈ (handoverStep s input).sockets, 0 ≤ socket := by
    rcases sockets_step s input with hsame | ⟨socket, hfresh, hcons⟩
    · rw [hsame]
      exact h.valid
    · rw [hcons]
      exact List.forall_mem_cons.mpr ⟨hfresh.1, h.valid⟩
  have hapart : ∀ socket ∈ lost, ¬ carries (handoverStep s input).acceptor socket ∧
      ∀ e ∈ (handoverStep s input).log, subject e ≠ socket := fun socket hsocket =>
    apart_step h.inv input (h.lost_known socket hsocket) (h.lost_apart socket hsocket).1
      (h.lost_apart socket hsocket).2
  cases hfails : createFails s input with
  | false =>
      refine ⟨lost, rfl, inv_handoverStep h.inv input, hnodup, hvalid,
        fun i hpresent => hcnt.symm ▸ present_step h input hpresent,
        fun i htargets => hcnt.symm ▸ target_step h input htargets, fun socket hmem hlost => ?_,
        h.lost_nodup, fun socket hsocket => hkept socket (h.lost_known socket hsocket), hapart⟩
      refine (placed_step h input hmem hlost).resolve_right ?_
      rw [hfails]
      exact fun hcontra => Bool.false_ne_true hcontra.1
  | true =>
      obtain ⟨client, hcarries, hend, hlog⟩ := lost_of_createFails s input hfails
      have hclient := h.inv.acceptor.carried client ((hcarries client).mpr rfl)
      have hnew : client ∉ lost := fun hmem =>
        (h.lost_apart client hmem).1 ((hcarries client).mpr rfl)
      refine ⟨client :: lost, rfl, inv_handoverStep h.inv input, hnodup, hvalid,
        fun i hpresent => hcnt.symm ▸ present_step h input hpresent,
        fun i htargets => hcnt.symm ▸ target_step h input htargets, fun socket hmem hlost => ?_,
        List.nodup_cons.mpr ⟨hnew, h.lost_nodup⟩, ?_, ?_⟩
      · rw [List.mem_cons, not_or] at hlost
        refine (placed_step h input hmem hlost.2).resolve_right ?_
        rintro ⟨-, hcarried⟩
        exact hlost.1 ((hcarries socket).mp hcarried)
      · refine List.forall_mem_cons.mpr ⟨hkept client hclient.1, fun socket hsocket => ?_⟩
        exact hkept socket (h.lost_known socket hsocket)
      · refine List.forall_mem_cons.mpr ⟨⟨hend client, ?_⟩, hapart⟩
        rw [hlog]
        exact hclient.2.2

/-- At the beginning no socket is open. -/
theorem ledger_init (maxConnections : ℕ) (size : ℤ) (clientData serverData : ℕ → ℤ → UInt8) :
    Ledger [] (Handover.init maxConnections size clientData serverData) where
  inv := inv_init maxConnections size clientData serverData
  nodup := List.nodup_nil
  valid := by simp [Handover.init]
  present i hpresent := absurd rfl hpresent
  target i htargets := htargets.elim
  placed := by simp [Handover.init]
  lost_nodup := List.nodup_nil
  lost_known := by simp
  lost_apart := by simp

/-! ## How many sockets are open -/

/-- The sockets in the fields of the contexts. -/
def fieldSockets (s : Handover) : List ℤ :=
  (List.range s.cnt).map (fun i => (s.ctx i).clientSocket) ++
    (List.range s.cnt).map (fun i => (s.ctx i).serverSocket)

/-- The client the acceptor has in hand. -/
def inHand : AcceptorPc → List ℤ
  | .idle => []
  | .start _ client _ _ => [client]

/-- A socket is open if it has been handed out and not closed. -/
theorem mem_openSockets : socket ∈ openSockets s ↔ socket ∈ s.sockets ∧ ¬ Closed s.log socket := by
  simp [openSockets]

/-- Each is counted once. -/
theorem nodup_openSockets (h : Ledger lost s) : (openSockets s).Nodup := h.nodup.filter _

/-- **An open socket** is in hand, in a field, or lost. -/
theorem openSockets_subset (h : Ledger lost s) :
    openSockets s ⊆ inHand s.acceptor ++ fieldSockets s ++ lost := by
  intro socket hmem
  obtain ⟨hknown, hopen⟩ := mem_openSockets.mp hmem
  by_cases hlost : socket ∈ lost
  · exact List.mem_append_right _ hlost
  · apply List.mem_append_left
    cases h.placed socket hknown hlost with
    | closed hclosed => exact absurd hclosed hopen
    | carried hcarries =>
        apply List.mem_append_left
        cases hpc : s.acceptor with
        | idle =>
            rw [hpc] at hcarries
            exact hcarries.elim
        | start pc client passthrough k =>
            rw [hpc] at hcarries
            exact List.mem_singleton.mpr hcarries.2
    | client i hi hclient =>
        apply List.mem_append_right
        exact List.mem_append_left _ (List.mem_map.mpr ⟨i, List.mem_range.mpr hi, hclient⟩)
    | server i hi hkeeps hserver =>
        apply List.mem_append_right
        exact List.mem_append_right _ (List.mem_map.mpr ⟨i, List.mem_range.mpr hi, hserver⟩)

/-- What is lost is open. -/
theorem lost_subset (h : Ledger lost s) : lost ⊆ openSockets s := by
  intro socket hmem
  refine mem_openSockets.mpr ⟨h.lost_known socket hmem, ?_⟩
  rintro ⟨e, he, hcloses⟩
  exact (h.lost_apart socket hmem).2 e he (subject_of_closes hcloses)

/-- Two sockets for a context, one for the acceptor, and those that are lost. -/
theorem length_openSockets_le (h : Ledger lost s) :
    (openSockets s).length ≤ 2 * s.cnt + 1 + lost.length := by
  have hle := List.Nodup.length_le_of_subset (nodup_openSockets h) (openSockets_subset h)
  have hhand : (inHand s.acceptor).length ≤ 1 := by
    cases s.acceptor <;> simp [inHand]
  simp only [List.length_append, fieldSockets, List.length_map, List.length_range] at hle
  omega

/-- Where nothing is left to do, the open sockets are the lost ones. -/
theorem length_openSockets_of_atRest (h : Ledger lost s) (hrest : AtRest s) :
    (openSockets s).length = lost.length := by
  apply Nat.le_antisymm
  · refine List.Nodup.length_le_of_subset (nodup_openSockets h) fun socket hmem => ?_
    obtain ⟨hknown, hopen⟩ := mem_openSockets.mp hmem
    by_contra hlost
    cases h.placed socket hknown hlost with
    | closed hclosed => exact hopen hclosed
    | carried hcarries =>
        rw [hrest.acceptor] at hcarries
        exact hcarries
    | client i hi hclient =>
        have hvalid := h.valid socket hknown
        rw [← hclient, hrest.client i hi] at hvalid
        exact absurd hvalid (by decide)
    | server i hi hkeeps hserver =>
        rcases hrest.worker i hi with hpc | hpc
        · simp [hpc, keepsServer, serving] at hkeeps
        · simp [hpc, keepsServer, serving] at hkeeps
  · exact List.Nodup.length_le_of_subset h.lost_nodup (lost_subset h)

end Steps

/-- The books of a process with so many contexts, in which so many clients are lost. -/
def LedgerOf (maxConnections n : ℕ) (s : Handover) : Prop :=
  s.cnt = maxConnections ∧ ∃ lost, lost.length = n ∧ Ledger lost s

/-- Each step loses a client if a `pthread_create` fails in it, and no other. -/
theorem ledgerOf_step {maxConnections n : ℕ} {s : Handover} (h : LedgerOf maxConnections n s)
    (input : HandoverInput) :
    LedgerOf maxConnections (n + (createFails s input).toNat) (handoverStep s input) := by
  obtain ⟨hcnt, lost, rfl, h⟩ := h
  obtain ⟨lost', hlength, h'⟩ := ledger_step h input
  refine ⟨?_, lost', hlength, h'⟩
  calc
    (handoverStep s input).cnt = s.cnt := handoverStep_cnt s input
    _ = maxConnections := hcnt

/-- At first no client is lost. -/
theorem ledgerOf_init (maxConnections : ℕ) (size : ℤ) (clientData serverData : ℕ → ℤ → UInt8) :
    LedgerOf maxConnections 0 (Handover.init maxConnections size clientData serverData) :=
  ⟨rfl, [], rfl, ledger_init maxConnections size clientData serverData⟩

/-- **No socket is lost but by a failing `pthread_create`.** There are at most two open sockets a
context, one in the acceptor's hand and the clients whose thread could not be created; where
nothing is left to do, exactly these clients are open. -/
theorem open_sockets (maxConnections : ℕ) (size : ℤ) (clientData serverData : ℕ → ℤ → UInt8)
    (inputs : List HandoverInput) :
    let start := Handover.init maxConnections size clientData serverData
    let s := run handoverStep start inputs
    let failed := runCount handoverStep createFails start inputs
    (openSockets s).length ≤ 2 * maxConnections + 1 + failed ∧
      (AtRest s → (openSockets s).length = failed) := by
  intro start s failed
  obtain ⟨hcnt, lost, hlength, h⟩ := run_counted (LedgerOf maxConnections)
    (fun n s input h => ledgerOf_step h input)
    (ledgerOf_init maxConnections size clientData serverData) inputs
  have hlost : lost.length = failed := calc
    lost.length = 0 + failed := hlength
    _ = failed := Nat.zero_add failed
  refine ⟨?_, fun hrest => ?_⟩
  · calc
      (openSockets s).length ≤ 2 * s.cnt + 1 + lost.length := length_openSockets_le h
      _ = 2 * maxConnections + 1 + failed := by rw [hcnt, hlost]
  · calc
      (openSockets s).length = lost.length := length_openSockets_of_atRest h hrest
      _ = failed := hlost

/-- The thread for one client cannot be created, another client is served. -/
theorem open_sockets_one_lost :
    let inputs : List HandoverInput :=
      .arrive 5 false :: List.replicate 3 (.acceptor ⟨11, 0, by decide⟩) ++
        .arrive 6 false :: List.replicate 7 (.acceptor ⟨0, 1, by decide⟩) ++
        [.worker 0 .run, .worker 0 .run, .worker 0 .run, .worker 0 (.connect (.connected 7)),
          .worker 0 .run, .worker 0 .ending] ++ List.replicate 6 (.worker 0 .run)
    (openSockets (run handoverStep (Handover.init 1 16 (fun _ _ => 0) fun _ _ => 0)
      inputs)).length = 1 := by
  intro inputs
  have hopen := open_sockets 1 16 (fun _ _ => 0) (fun _ _ => 0) inputs
  have hrest : AtRest (run handoverStep (Handover.init 1 16 (fun _ _ => 0) fun _ _ => 0) inputs) :=
    ⟨by decide, by decide, by decide⟩
  rw [hopen.2 hrest]
  decide

end SmbProxy.Analysis
