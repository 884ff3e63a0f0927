import SmbProxy.Interface.Handover

/-!
# The hand-over of a client is safe

The events of the sockets are a trace in which a socket is installed once, closed by the
worker it was installed for and not twice, and a server socket closed by whom it was opened
(`WellLogged`). That the next event always fits into the trace rests on what every context
is in (`CtxInv`): a worker that is inside has before it the client it has seen, which has
not been closed unless the worker is about to clear the field. The acceptor has a client
that no event is about, and a context without one (`AcceptorInv`); the worker of that
context cannot get inside before the client is there.
-/

set_option autoImplicit false

namespace SmbProxy.Analysis

open SmbProxy.Library SmbProxy.Model SmbProxy.Interface

/-! ## Traces -/

/-- The socket that an event is about. -/
def subject : SocketEvent → ℤ
  | .install _ client => client
  | .close _ client => client
  | .openServer _ _ server => server
  | .closeServer _ _ server => server

/-- What may happen next: something to a socket to which nothing has happened, or the close
of a socket by the worker that has it. -/
inductive Allowed (log : List SocketEvent) : SocketEvent → Prop
  | install (i : ℕ) {client : ℤ} : (∀ e ∈ log, subject e ≠ client) → Allowed log (.install i client)
  | refuse {client : ℤ} : (∀ e ∈ log, subject e ≠ client) → Allowed log (.close .acceptor client)
  | close {i : ℕ} {client : ℤ} : .install i client ∈ log → (∀ e ∈ log, closes client e = false) →
      Allowed log (.close (.worker i) client)
  | openServer (i : ℕ) (client : ℤ) {server : ℤ} : (∀ e ∈ log, subject e ≠ server) →
      Allowed log (.openServer i client server)
  | closeServer {i : ℕ} {client server : ℤ} : .openServer i client server ∈ log →
      Allowed log (.closeServer i client server)

/-- A trace of events, the latest first, each of which was allowed. -/
inductive WellLogged : List SocketEvent → Prop
  | nil : WellLogged []
  | cons {e : SocketEvent} {log : List SocketEvent} : Allowed log e → WellLogged log →
      WellLogged (e :: log)

section Traces

variable {log : List SocketEvent} {i j : ℕ} {client server : ℤ} {e : SocketEvent}

/-- A closing of a client is about this client. -/
theorem subject_of_closes (h : closes client e = true) : subject e = client := by
  cases e with
  | install i c => cases h
  | close actor c => exact of_decide_eq_true h
  | openServer i c server => cases h
  | closeServer i c server => exact of_decide_eq_true h

/-- A client is installed in one context. -/
theorem installed_once (h : WellLogged log) (hi : .install i client ∈ log)
    (hj : .install j client ∈ log) : i = j := by
  induction h with
  | nil => cases hi
  | @cons e log hallowed _ ih =>
      cases hi with
      | head =>
          cases hj with
          | head => rfl
          | tail _ hj =>
              cases hallowed with
              | install _ hnew => exact absurd rfl (hnew _ hj)
      | tail _ hi =>
          cases hj with
          | head =>
              cases hallowed with
              | install _ hnew => exact absurd rfl (hnew _ hi)
          | tail _ hj => exact ih hi hj

/-- An installed socket is no server socket. -/
theorem installed_apart (h : WellLogged log) (hi : .install i client ∈ log) :
    .openServer j server client ∉ log := by
  intro hopen
  induction h with
  | nil => cases hi
  | @cons e log hallowed _ ih =>
      cases hi with
      | head =>
          cases hopen with
          | tail _ hopen =>
              cases hallowed with
              | install _ hnew => exact absurd rfl (hnew _ hopen)
      | tail _ hi =>
          cases hopen with
          | head =>
              cases hallowed with
              | openServer _ _ hnew => exact absurd rfl (hnew _ hi)
          | tail _ hopen => exact ih hi hopen

/-- An installed socket is closed by the worker it was installed for. -/
theorem closed_by (h : WellLogged log) (hi : .install i client ∈ log) (he : e ∈ log)
    (hcloses : closes client e = true) : e = .close (.worker i) client := by
  induction h with
  | nil => cases hi
  | @cons e' log hallowed hlog ih =>
      have hsubject := subject_of_closes hcloses
      cases hi with
      | head =>
          cases he with
          | head => cases hcloses
          | tail _ he =>
              cases hallowed with
              | install _ hnew => exact absurd hsubject (hnew _ he)
      | tail _ hi =>
          cases he with
          | tail _ he => exact ih hi he
          | head =>
              cases hallowed with
              | install i' hnew => cases hcloses
              | openServer i' client' hnew => cases hcloses
              | refuse hnew => exact absurd hsubject.symm (hnew _ hi)
              | @close i' client' hinstalled hopen =>
                  have hclient : client' = client := hsubject
                  rw [hclient] at hinstalled
                  rw [hclient, installed_once hlog hinstalled hi]
              | @closeServer i' client' server' hopen =>
                  have hserver : server' = client := hsubject
                  rw [hserver] at hopen
                  exact absurd hopen (installed_apart hlog hi)

/-- Where no event closes the client, it is closed zero times. -/
theorem countP_closes_eq_zero (h : ∀ e ∈ log, closes client e = false) :
    log.countP (closes client) = 0 := by
  apply List.countP_eq_zero.mpr
  intro e he
  rw [h e he]
  exact Bool.false_ne_true

/-- A client that has been installed is closed once at most. -/
theorem closed_once (h : WellLogged log) (hi : .install i client ∈ log) :
    log.countP (closes client) ≤ 1 := by
  induction h with
  | nil => cases hi
  | @cons e log hallowed hlog ih =>
      rw [List.countP_cons]
      by_cases hcloses : closes client e = true
      · have heq := closed_by (.cons hallowed hlog) hi List.mem_cons_self hcloses
        subst heq
        cases hallowed with
        | close hinstalled hopen => rw [if_pos hcloses, countP_closes_eq_zero hopen]
      · rw [if_neg hcloses]
        cases hi with
        | tail _ hi => exact ih hi
        | head =>
            cases hallowed with
            | install _ hnew =>
                rw [countP_closes_eq_zero fun e he => ?_]
                · omega
                · by_contra hne
                  exact hnew e he (subject_of_closes (by simpa using hne))

/-- A server socket is closed by the worker that opened it, for the same client. -/
theorem server_opened (h : WellLogged log) {before : List SocketEvent}
    (hbefore : .closeServer i client server :: before <:+ log) :
    .openServer i client server ∈ before := by
  induction h with
  | nil => simp at hbefore
  | @cons e log hallowed hlog ih =>
      cases List.suffix_cons_iff.mp hbefore with
      | inl heq =>
          cases heq
          cases hallowed with
          | closeServer hopen => exact hopen
      | inr hsuffix => exact ih hsuffix

end Traces

/-! ## The invariant -/

/-- The worker has closed its client and not yet cleared the field. -/
def clearing : WorkerPc → Bool
  | .clearEarly | .clearClient => true
  | _ => false

/-- A worker that clears its context is inside. -/
theorem inside_of_clearing {pc : WorkerPc} (h : clearing pc = true) : inside pc = true := by
  cases pc <;> first | rfl | cases h

/-- The worker has yet to test whether it has a server socket to close. -/
def serving : WorkerPc → Bool
  | .testServer | .proxy | .testClient | .closeClient | .clearClient | .testServerEnd => true
  | _ => false

/-- A context with its worker: the program counter, and the client last seen. -/
structure CtxInv (log : List SocketEvent) (i : ℕ) (ctx : SmbCtx) (pc : WorkerPc) (seen : ℤ) :
    Prop where
  created : pc ≠ .absent → ctx.thread ≠ 0
  inside : inside pc = true → ctx.clientSocket = seen ∧ seen ≠ invalidSocket
  held : ctx.clientSocket ≠ invalidSocket → .install i ctx.clientSocket ∈ log
  unclosed : ctx.clientSocket ≠ invalidSocket → clearing pc = false →
    ∀ e ∈ log, closes ctx.clientSocket e = false
  closed : clearing pc = true → .close (.worker i) seen ∈ log
  opened : serving pc = true → ctx.serverSocket ≠ invalidSocket →
    .openServer i seen ctx.serverSocket ∈ log
  ending : pc = .closeServer → .openServer i seen ctx.serverSocket ∈ log

/-- The instructions before the client is installed or closed. -/
def carrying : StartPc → Bool
  | .setPassthrough => false
  | _ => true

/-- The instructions on a context that has been found without a client. -/
def found : StartPc → Bool
  | .testThread | .createThread | .resetClientRing | .resetServerRing | .setClient => true
  | .testClient | .setPassthrough | .closeClient => false

/-- The acceptor has not yet installed its client. -/
def carries : AcceptorPc → ℤ → Prop
  | .idle, _ => False
  | .start pc client _ _, client' => carrying pc = true ∧ client' = client

/-- The acceptor has found the context without a client. -/
def targets : AcceptorPc → ℕ → Prop
  | .idle, _ => False
  | .start pc _ _ i, i' => found pc = true ∧ i' = i

/-- The acceptor with the client it has and the context it has found. -/
structure AcceptorInv (s : Handover) : Prop where
  carried : ∀ client, carries s.acceptor client →
    client ∈ s.sockets ∧ client ≠ invalidSocket ∧ ∀ e ∈ s.log, subject e ≠ client
  target : ∀ i, targets s.acceptor i → (s.ctx i).clientSocket = invalidSocket
  creating : ∀ client passthrough i, s.acceptor = .start .createThread client passthrough i →
    (s.ctx i).thread = 0

/-- Of an idle acceptor nothing is asked. -/
theorem acceptorInv_idle {s : Handover} (h : s.acceptor = .idle) : AcceptorInv s := by
  refine ⟨fun client hcarries => ?_, fun i htargets => ?_, fun client passthrough i hstart => ?_⟩
  · rw [h] at hcarries
    exact hcarries.elim
  · rw [h] at htargets
    exact htargets.elim
  · rw [h] at hstart
    cases hstart

/-- The invariant of the hand-over. -/
structure Inv (s : Handover) : Prop where
  acceptor : AcceptorInv s
  ctx : ∀ i, CtxInv s.log i (s.ctx i) (s.worker i) (s.seen i)
  logged : WellLogged s.log
  known : ∀ e ∈ s.log, subject e ∈ s.sockets

/-- The contexts start empty, and nothing has happened. -/
theorem inv_init (maxConnections : ℕ) (size : ℤ) (clientData serverData : ℕ → ℤ → UInt8) :
    Inv (Handover.init maxConnections size clientData serverData) where
  acceptor := acceptorInv_idle rfl
  ctx i := by
    refine ⟨fun h => absurd rfl h, fun h => ?_, fun h => absurd rfl h, fun h => absurd rfl h,
      fun h => ?_, fun h => ?_, fun h => ?_⟩
    · cases h
    · cases h
    · cases h
    · cases h
  logged := .nil
  known e he := by cases he

/-! ## What others do to a context -/

section Frames

variable {s s' : Handover} {log : List SocketEvent} {i j : ℕ} {ctx ctx' : SmbCtx} {pc : WorkerPc}
  {seen : ℤ}

/-- What is asked of a context depends on its sockets and its thread only, not on its rings. -/
theorem ctxInv_congr (h : CtxInv log i ctx pc seen) (hclient : ctx'.clientSocket = ctx.clientSocket)
    (hserver : ctx'.serverSocket = ctx.serverSocket) (hthread : ctx'.thread = ctx.thread) :
    CtxInv log i ctx' pc seen := by
  refine ⟨?_, ?_, ?_, ?_, h.closed, ?_, ?_⟩
  · rw [hthread]
    exact h.created
  · rw [hclient]
    exact h.inside
  · rw [hclient]
    exact h.held
  · rw [hclient]
    exact h.unclosed
  · rw [hserver]
    exact h.opened
  · rw [hserver]
    exact h.ending

/-- An event that does not close the client of the context. -/
theorem ctxInv_cons (h : CtxInv log i ctx pc seen) {e : SocketEvent}
    (he : ctx.clientSocket ≠ invalidSocket → closes ctx.clientSocket e = false) :
    CtxInv (e :: log) i ctx pc seen where
  created := h.created
  inside := h.inside
  held hclient := List.mem_cons_of_mem e (h.held hclient)
  unclosed hclient hpc e' he' := by
    cases he' with
    | head => exact he hclient
    | tail _ hmem => exact h.unclosed hclient hpc e' hmem
  closed hpc := List.mem_cons_of_mem e (h.closed hpc)
  opened hpc hserver := List.mem_cons_of_mem e (h.opened hpc hserver)
  ending hpc := List.mem_cons_of_mem e (h.ending hpc)

/-- The socket belongs to the worker of the context, or is new. -/
def Owns (s : Handover) (i : ℕ) (socket : ℤ) : Prop :=
  .install i socket ∈ s.log ∨ (∃ client, .openServer i client socket ∈ s.log) ∨ socket ∉ s.sockets

/-- The acceptor does not carry a socket that a worker owns. -/
theorem not_carries_of_owns (h : Inv s) {socket : ℤ} (howns : Owns s i socket) :
    ¬ carries s.acceptor socket := by
  intro hcarries
  obtain ⟨hmem, -, hnew⟩ := h.acceptor.carried socket hcarries
  cases howns with
  | inl hinstalled => exact hnew _ hinstalled rfl
  | inr howns =>
      cases howns with
      | inl hopened =>
          obtain ⟨client, hopened⟩ := hopened
          exact hnew _ hopened rfl
      | inr hfresh => exact hfresh hmem

/-- No other context holds a socket that a worker owns. -/
theorem not_holds_of_owns (h : Inv s) {socket : ℤ} (howns : Owns s i socket) (hij : j ≠ i) :
    ¬ Holds s j socket := by
  rintro ⟨rfl, hvalid⟩
  have hheld := (h.ctx j).held hvalid
  cases howns with
  | inl hinstalled => exact hij (installed_once h.logged hheld hinstalled)
  | inr howns =>
      cases howns with
      | inl hopened =>
          obtain ⟨client, hopened⟩ := hopened
          exact installed_apart h.logged hheld hopened
      | inr hfresh => exact hfresh (h.known _ hheld)

/-- What a step of a worker changes outside its context: there may be one more event,
about a socket of its own. -/
structure WorkerFrame (s s' : Handover) (i : ℕ) : Prop where
  acceptor : s'.acceptor = s.acceptor
  ctx : ∀ j, j ≠ i → s'.ctx j = s.ctx j ∧ s'.worker j = s.worker j ∧ s'.seen j = s.seen j
  thread : (s'.ctx i).thread = (s.ctx i).thread
  client : (s'.ctx i).clientSocket = (s.ctx i).clientSocket ∨
    (s'.ctx i).clientSocket = invalidSocket
  sockets : ∀ socket ∈ s.sockets, socket ∈ s'.sockets
  log : s'.log = s.log ∨ ∃ e, s'.log = e :: s.log ∧ Allowed s.log e ∧ Owns s i (subject e) ∧
    subject e ∈ s'.sockets

/-- **A step of a worker keeps the invariant** if it keeps that of its own context. -/
theorem inv_worker (h : Inv s) (hframe : WorkerFrame s s' i)
    (hi : CtxInv s'.log i (s'.ctx i) (s'.worker i) (s'.seen i)) : Inv s' := by
  have hevents : ∀ e ∈ s'.log, e ∈ s.log ∨ Owns s i (subject e) ∧ subject e ∈ s'.sockets := by
    intro e he
    cases hframe.log with
    | inl hsame =>
        rw [hsame] at he
        exact Or.inl he
    | inr hnew =>
        obtain ⟨e', hlog, -, howns, hmem⟩ := hnew
        rw [hlog] at he
        cases he with
        | head => exact Or.inr ⟨howns, hmem⟩
        | tail _ he => exact Or.inl he
  have hothers : ∀ j, j ≠ i → CtxInv s'.log j (s'.ctx j) (s'.worker j) (s'.seen j) := by
    intro j hj
    obtain ⟨hctx, hworker, hseen⟩ := hframe.ctx j hj
    rw [hctx, hworker, hseen]
    cases hframe.log with
    | inl hsame =>
        rw [hsame]
        exact h.ctx j
    | inr hnew =>
        obtain ⟨e, hlog, -, howns, -⟩ := hnew
        rw [hlog]
        apply ctxInv_cons (h.ctx j)
        intro hvalid
        by_contra hcloses
        have hsubject := subject_of_closes (Bool.not_eq_false _ ▸ hcloses)
        rw [hsubject] at howns
        exact not_holds_of_owns h howns hj ⟨rfl, hvalid⟩
  refine ⟨⟨fun client hcarries => ?_, fun j htargets => ?_, fun client passthrough j hpc => ?_⟩,
    fun j => ?_, ?_, fun e he => ?_⟩
  · rw [hframe.acceptor] at hcarries
    obtain ⟨hmem, hvalid, hnew⟩ := h.acceptor.carried client hcarries
    refine ⟨hframe.sockets client hmem, hvalid, fun e he hsubject => ?_⟩
    cases hevents e he with
    | inl hold => exact hnew e hold hsubject
    | inr hown =>
        rw [hsubject] at hown
        exact not_carries_of_owns h hown.1 hcarries
  · rw [hframe.acceptor] at htargets
    have htarget := h.acceptor.target j htargets
    by_cases hj : j = i
    · subst hj
      cases hframe.client with
      | inl hsame => rw [hsame, htarget]
      | inr hcleared => exact hcleared
    · rw [(hframe.ctx j hj).1, htarget]
  · rw [hframe.acceptor] at hpc
    have hthread := h.acceptor.creating client passthrough j hpc
    by_cases hj : j = i
    · subst hj
      rw [hframe.thread, hthread]
    · rw [(hframe.ctx j hj).1, hthread]
  · by_cases hj : j = i
    · rw [hj]
      exact hi
    · exact hothers j hj
  · cases hframe.log with
    | inl hsame =>
        rw [hsame]
        exact h.logged
    | inr hnew =>
        obtain ⟨e, hlog, hallowed, -⟩ := hnew
        rw [hlog]
        exact .cons hallowed h.logged
  · cases hevents e he with
    | inl hold => exact hframe.sockets _ (h.known e hold)
    | inr hown => exact hown.2

end Frames

/-! ## The steps of a worker -/

section Worker

variable {s : Handover} {log : List SocketEvent} {i : ℕ} {ctx ctx' : SmbCtx} {pc pc' : WorkerPc}
  {seen : ℤ}

/-- A move that neither enters nor leaves the stretch in which the client has been closed, and
does not enter those in which the worker is inside or has a server socket to close. -/
def Quiet (pc pc' : WorkerPc) : Prop :=
  pc ≠ .absent ∧ pc' ≠ .closeServer ∧ clearing pc' = clearing pc ∧
    (inside pc' = true → inside pc = true) ∧ (serving pc' = true → serving pc = true)

instance (pc pc' : WorkerPc) : Decidable (Quiet pc pc') := inferInstanceAs (Decidable (_ ∧ _))

/-- A worker that goes on without an event keeps what is asked of its context. -/
theorem ctxInv_quiet (h : CtxInv log i ctx pc seen) (hquiet : Quiet pc pc')
    (hclient : ctx'.clientSocket = ctx.clientSocket) (hthread : ctx'.thread = ctx.thread)
    (hserver : serving pc' = true → ctx'.serverSocket = ctx.serverSocket) :
    CtxInv log i ctx' pc' seen := by
  obtain ⟨hcreated, hending, hclearing, hinside, hserving⟩ := hquiet
  refine ⟨fun _ => ?_, fun hpc => ?_, ?_, ?_, ?_, fun hpc => ?_, fun hpc => absurd hpc hending⟩
  · rw [hthread]
    exact h.created hcreated
  · rw [hclient]
    exact h.inside (hinside hpc)
  · rw [hclient]
    exact h.held
  · rw [hclient, hclearing]
    exact h.unclosed
  · rw [hclearing]
    exact h.closed
  · rw [hserver hpc]
    exact h.opened (hserving hpc)

/-- A worker goes on, if its context is as it has to be where it comes to. -/
theorem inv_workerAt (h : Inv s) (hi : CtxInv s.log i (s.ctx i) pc (s.seen i)) :
    Inv (s.workerAt i pc) := by
  refine inv_worker h (i := i) ⟨rfl, fun j hj => ⟨rfl, Function.update_of_ne hj _ _, rfl⟩, rfl,
    Or.inl rfl, fun _ hmem => hmem, Or.inl rfl⟩ ?_
  show CtxInv s.log i (s.ctx i) (Function.update s.worker i pc i) (s.seen i)
  rw [Function.update_self]
  exact hi

/-- A quiet move changes nothing but the program counter. -/
theorem inv_quiet (h : Inv s) (hpc : s.worker i = pc) (hquiet : Quiet pc pc') :
    Inv (s.workerAt i pc') := by
  have hctx := h.ctx i
  rw [hpc] at hctx
  exact inv_workerAt h (ctxInv_quiet hctx hquiet rfl rfl fun _ => rfl)

/-- A worker changes its context and goes on. It leaves its thread as it is, and its client or
clears it. -/
theorem inv_update (h : Inv s) (f : SmbCtx → SmbCtx) (hthread : (f (s.ctx i)).thread = (s.ctx i).thread)
    (hclient : (f (s.ctx i)).clientSocket = (s.ctx i).clientSocket ∨
      (f (s.ctx i)).clientSocket = invalidSocket)
    (hi : CtxInv s.log i (f (s.ctx i)) pc (s.seen i)) : Inv ((s.update i f).workerAt i pc) := by
  have hctx : ((s.update i f).workerAt i pc).ctx i = f (s.ctx i) := Function.update_self _ _ _
  have hworker : ((s.update i f).workerAt i pc).worker i = pc := Function.update_self _ _ _
  refine inv_worker h (i := i) ⟨rfl, fun j hj => ⟨Function.update_of_ne hj _ _,
    Function.update_of_ne hj _ _, rfl⟩, ?_, ?_, fun _ hmem => hmem, Or.inl rfl⟩ ?_
  · rw [hctx]
    exact hthread
  · rw [hctx]
    exact hclient
  · rw [hctx, hworker]
    exact hi

/-- A worker closes a socket that it owns, and goes on. -/
theorem inv_log (h : Inv s) {e : SocketEvent} (hallowed : Allowed s.log e)
    (howns : Owns s i (subject e)) (hmem : subject e ∈ s.sockets)
    (hi : CtxInv (e :: s.log) i (s.ctx i) pc (s.seen i)) :
    Inv ({ s with log := e :: s.log }.workerAt i pc) := by
  refine inv_worker h (i := i) ⟨rfl, fun j hj => ⟨rfl, Function.update_of_ne hj _ _, rfl⟩, rfl,
    Or.inl rfl, fun _ hmem => hmem, Or.inr ⟨e, rfl, hallowed, howns, hmem⟩⟩ ?_
  show CtxInv (e :: s.log) i (s.ctx i) (Function.update s.worker i pc i) (s.seen i)
  rw [Function.update_self]
  exact hi

/-- A worker that is inside closes its client. -/
theorem inv_close (h : Inv s) (hpc : s.worker i = pc) (hinside : inside pc = true)
    (hclearing : clearing pc = false) (hclearing' : clearing pc' = true)
    (hserving : serving pc' = true → serving pc = true) :
    Inv ({ s with log := .close (.worker i) (s.ctx i).clientSocket :: s.log }.workerAt i pc') := by
  have hctx := h.ctx i
  rw [hpc] at hctx
  obtain ⟨hclient, hvalid⟩ := hctx.inside hinside
  have hheld := hctx.held (hclient ▸ hvalid)
  have hcreated : pc ≠ .absent := by
    rintro rfl
    cases hinside
  apply inv_log h (.close hheld (hctx.unclosed (hclient ▸ hvalid) hclearing)) (Or.inl hheld)
    (h.known (.install i _) hheld)
  refine ⟨fun _ => hctx.created hcreated, fun _ => ⟨hclient, hvalid⟩,
    fun hne => List.mem_cons_of_mem _ (hctx.held hne), fun _ hpc' => ?_, fun _ => ?_,
    fun hpc' hserver => List.mem_cons_of_mem _ (hctx.opened (hserving hpc') hserver), ?_⟩
  · rw [hclearing'] at hpc'
    cases hpc'
  · rw [hclient]
    exact List.mem_cons_self
  · rintro rfl
    cases hclearing'

/-- A worker that has closed its client lets go of it. -/
theorem inv_clear (h : Inv s) (hpc : s.worker i = pc) (hclearing : clearing pc = true)
    (houtside : inside pc' = false) (hserving : serving pc' = true → serving pc = true)
    (hending : pc' ≠ .closeServer) :
    Inv ((s.update i fun ctx => { ctx with clientSocket := invalidSocket }).workerAt i pc') := by
  have hctx := h.ctx i
  rw [hpc] at hctx
  have hcreated : pc ≠ .absent := by
    rintro rfl
    cases hclearing
  apply inv_update h (fun ctx => { ctx with clientSocket := invalidSocket }) rfl (Or.inr rfl)
  refine ⟨fun _ => hctx.created hcreated, fun hpc' => ?_, fun hne => absurd rfl hne,
    fun hne => absurd rfl hne, fun hpc' => ?_, fun hpc' => hctx.opened (hserving hpc'),
    fun hpc' => absurd hpc' hending⟩
  · rw [houtside] at hpc'
    cases hpc'
  · rw [inside_of_clearing hpc'] at houtside
    cases houtside

/-- Nothing has happened to a socket that is fresh. -/
theorem new_of_fresh (h : Inv s) {socket : ℤ} (hfresh : s.Fresh socket) :
    ∀ e ∈ s.log, subject e ≠ socket := by
  rintro e he rfl
  exact hfresh.2 (h.known e he)

/-- A worker opens a server socket. -/
theorem inv_open (h : Inv s) {server : ℤ} (hfresh : s.Fresh server) :
    Inv { s with
      sockets := server :: s.sockets
      log := .openServer i (s.seen i) server :: s.log } := by
  have hctx : CtxInv (.openServer i (s.seen i) server :: s.log) i (s.ctx i) (s.worker i) (s.seen i) :=
    ctxInv_cons (h.ctx i) fun _ => rfl
  exact inv_worker h (i := i) ⟨rfl, fun j _ => ⟨rfl, rfl, rfl⟩, rfl, Or.inl rfl,
    fun _ hmem => List.mem_cons_of_mem _ hmem, Or.inr ⟨_, rfl, .openServer i _ (new_of_fresh h hfresh),
      Or.inr (Or.inr hfresh.2), List.mem_cons_self⟩⟩ hctx

/-- A worker closes a server socket that it has opened. -/
theorem inv_closeServer (h : Inv s) {server : ℤ} (hopen : .openServer i (s.seen i) server ∈ s.log)
    (hi : CtxInv s.log i (s.ctx i) pc (s.seen i)) :
    Inv ({ s with log := .closeServer i (s.seen i) server :: s.log }.workerAt i pc) := by
  apply inv_log h (.closeServer hopen) (Or.inr (Or.inl ⟨s.seen i, hopen⟩)) (h.known (.openServer i _ server) hopen)
  apply ctxInv_cons hi
  intro hvalid
  apply decide_eq_false
  rintro rfl
  exact installed_apart h.logged (hi.held hvalid) hopen

/-- A worker sets its server socket back. -/
theorem inv_clearServer (h : Inv s) (hpc : s.worker i = pc) (hquiet : Quiet pc pc')
    (hserving : serving pc' = false) :
    Inv ((s.update i fun ctx => { ctx with serverSocket := invalidSocket }).workerAt i pc') := by
  have hctx := h.ctx i
  rw [hpc] at hctx
  apply inv_update h (fun ctx => { ctx with serverSocket := invalidSocket }) rfl (Or.inl rfl)
  refine ctxInv_quiet hctx hquiet rfl rfl fun hpc' => ?_
  rw [hserving] at hpc'
  cases hpc'

/-- The end of `tcp_connect`: a server socket that no one else has, or none. -/
theorem inv_connectStep (h : Inv s) (hpc : s.worker i = .connecting) (event : ConnectEvent) :
    Inv (s.connectStep i event) := by
  have hquiet : Quiet .connecting .closeEarly := by decide
  cases event with
  | noSocket => exact inv_quiet h hpc hquiet
  | refused server =>
      unfold Handover.connectStep
      dsimp only
      by_cases hfresh : s.Fresh server
      · rw [if_pos hfresh]
        have hopen := inv_open (i := i) h hfresh
        have hctx := hopen.ctx i
        simp only [hpc] at hctx
        exact inv_closeServer hopen List.mem_cons_self (ctxInv_quiet hctx hquiet rfl rfl fun _ => rfl)
      · rw [if_neg hfresh]
        exact h
  | connected server =>
      unfold Handover.connectStep
      dsimp only
      by_cases hfresh : s.Fresh server
      · rw [if_pos hfresh]
        have hopen := inv_open (i := i) h hfresh
        have hctx := hopen.ctx i
        simp only [hpc] at hctx
        apply inv_update hopen (fun ctx => { ctx with serverSocket := server }) rfl (Or.inl rfl)
        refine ⟨fun _ => hctx.created hquiet.1, fun _ => hctx.inside rfl, hctx.held,
          fun hvalid _ => hctx.unclosed hvalid rfl, fun hclearing => ?_, fun _ _ => List.mem_cons_self,
          fun hending => ?_⟩
        · cases hclearing
        · cases hending
      · rw [if_neg hfresh]
        exact h

/-- A worker sees the client in its context, and goes inside. -/
theorem inv_wait (h : Inv s) (hpc : s.worker i = .wait)
    (hvalid : (s.ctx i).clientSocket ≠ invalidSocket) :
    Inv ({ s with seen := Function.update s.seen i (s.ctx i).clientSocket }.workerAt i .testSeen) := by
  have hctx := h.ctx i
  rw [hpc] at hctx
  refine inv_worker h (i := i) ⟨rfl, fun j hj => ⟨rfl, Function.update_of_ne hj _ _,
    Function.update_of_ne hj _ _⟩, rfl, Or.inl rfl, fun _ hmem => hmem, Or.inl rfl⟩ ?_
  show CtxInv s.log i (s.ctx i) (Function.update s.worker i .testSeen i)
    (Function.update s.seen i (s.ctx i).clientSocket i)
  rw [Function.update_self, Function.update_self]
  refine ⟨fun _ => hctx.created (by decide), fun _ => ⟨rfl, hvalid⟩, hctx.held,
    fun _ _ => hctx.unclosed hvalid rfl, fun hclearing => ?_, fun hserving => ?_,
    fun hending => ?_⟩
  · cases hclearing
  · cases hserving
  · cases hending

/-- The proxy loop does what it likes to the rings. -/
theorem inv_traffic (h : Inv s) (clientRing serverRing : Ioring) :
    Inv (s.update i fun ctx => { ctx with clientRing := clientRing, serverRing := serverRing }) := by
  have hctx := h.ctx i
  have hself : (s.update i fun ctx => { ctx with clientRing := clientRing, serverRing := serverRing }).ctx
      i = { s.ctx i with clientRing := clientRing, serverRing := serverRing } :=
    Function.update_self _ _ _
  refine inv_worker h (i := i) ⟨rfl, fun j hj => ⟨Function.update_of_ne hj _ _, rfl, rfl⟩, ?_,
    Or.inl ?_, fun _ hmem => hmem, Or.inl rfl⟩ ?_
  · rw [hself]
  · rw [hself]
  · rw [hself]
    exact ctxInv_congr hctx rfl rfl rfl

/-- A worker that has a server socket is about to close it. -/
theorem inv_testServerEnd (h : Inv s) (hpc : s.worker i = .testServerEnd)
    (hserver : (s.ctx i).serverSocket ≠ invalidSocket) : Inv (s.workerAt i .closeServer) := by
  have hctx := h.ctx i
  rw [hpc] at hctx
  apply inv_workerAt h
  refine ⟨fun _ => hctx.created (by decide), fun hinside => ?_, hctx.held, hctx.unclosed,
    hctx.closed, fun hserving => ?_, fun _ => hctx.opened rfl hserver⟩
  · cases hinside
  · cases hserving

/-- **Every step of a worker keeps the invariant.** -/
theorem inv_workerStep (h : Inv s) (event : WorkerEvent) : Inv (s.workerStep i event) := by
  unfold Handover.workerStep
  cases hpc : s.worker i with
  | absent => exact h
  | wait =>
      dsimp only
      by_cases hvalid : (s.ctx i).clientSocket = invalidSocket
      · rw [if_pos hvalid]
        exact h
      · rw [if_neg hvalid]
        exact inv_wait h hpc hvalid
  | testSeen =>
      dsimp only
      split_ifs
      · exact inv_quiet h hpc (by decide)
      · exact inv_quiet h hpc (by decide)
  | connect => exact inv_clearServer h hpc (by decide) rfl
  | connecting =>
      cases event with
      | connect event => exact inv_connectStep h hpc event
      | run => exact h
      | traffic clientRing serverRing => exact h
      | ending => exact h
  | testServer =>
      dsimp only
      split_ifs
      · exact inv_quiet h hpc (by decide)
      · exact inv_quiet h hpc (by decide)
  | closeEarly => exact inv_close h hpc rfl rfl rfl fun hserving => by cases hserving
  | clearEarly =>
      exact inv_clear h hpc rfl rfl (fun hserving => by cases hserving) (by decide)
  | proxy =>
      cases event with
      | traffic clientRing serverRing => exact inv_traffic h clientRing serverRing
      | ending => exact inv_quiet h hpc (by decide)
      | run => exact h
      | connect event => exact h
  | testClient =>
      dsimp only
      split_ifs
      · exact inv_quiet h hpc (by decide)
      · exact inv_quiet h hpc (by decide)
  | closeClient => exact inv_close h hpc rfl rfl rfl fun _ => rfl
  | clearClient => exact inv_clear h hpc rfl rfl (fun _ => rfl) (by decide)
  | testServerEnd =>
      dsimp only
      by_cases hserver : (s.ctx i).serverSocket ≠ invalidSocket
      · rw [if_pos hserver]
        exact inv_testServerEnd h hpc hserver
      · rw [if_neg hserver]
        exact inv_quiet h hpc (by decide)
  | closeServer =>
      have hctx := h.ctx i
      rw [hpc] at hctx
      exact inv_closeServer h (hctx.ending rfl)
        (ctxInv_quiet hctx (by decide) rfl rfl fun _ => rfl)
  | clearServer => exact inv_clearServer h hpc (by decide) rfl

end Worker

/-! ## The steps of the acceptor -/

section Acceptor

variable {s : Handover} {client : ℤ} {passthrough : Bool} {i : ℕ}

/-- The acceptor goes on with the client it has. -/
theorem inv_goto (h : Inv s) {pc pc' : StartPc} {i' : ℕ}
    (hpc : s.acceptor = .start pc client passthrough i) (hcarrying : carrying pc = true)
    (hfound : found pc' = true → (s.ctx i').clientSocket = invalidSocket)
    (hcreating : pc' = .createThread → (s.ctx i').thread = 0) :
    Inv (s.goto (.start pc' client passthrough i')) := by
  refine ⟨⟨?_, ?_, ?_⟩, h.ctx, h.logged, h.known⟩
  · rintro client' ⟨-, hclient⟩
    apply h.acceptor.carried client'
    rw [hpc]
    exact ⟨hcarrying, hclient⟩
  · rintro j ⟨hpc', rfl⟩
    exact hfound hpc'
  · intro client' passthrough' j hstart
    cases hstart
    exact hcreating rfl

/-- The acceptor is done with its client. -/
theorem inv_idle (h : Inv s) : Inv (s.goto .idle) :=
  ⟨acceptorInv_idle rfl, h.ctx, h.logged, h.known⟩

/-- The context at which the acceptor has found no client has none. -/
theorem clientSocket_of_found (h : Inv s) {pc : StartPc}
    (hpc : s.acceptor = .start pc client passthrough i) (hfound : found pc = true) :
    (s.ctx i).clientSocket = invalidSocket := by
  apply h.acceptor.target i
  rw [hpc]
  exact ⟨hfound, rfl⟩

/-- The acceptor changes what is neither a socket nor a thread. -/
theorem inv_update_acceptor (h : Inv s) (f : SmbCtx → SmbCtx)
    (hclient : (f (s.ctx i)).clientSocket = (s.ctx i).clientSocket)
    (hserver : (f (s.ctx i)).serverSocket = (s.ctx i).serverSocket)
    (hthread : (f (s.ctx i)).thread = (s.ctx i).thread) : Inv (s.update i f) := by
  have hctx : ∀ j, ((s.update i f).ctx j).clientSocket = (s.ctx j).clientSocket ∧
      ((s.update i f).ctx j).serverSocket = (s.ctx j).serverSocket ∧
      ((s.update i f).ctx j).thread = (s.ctx j).thread := by
    intro j
    by_cases hj : j = i
    · subst hj
      have hself : (s.update j f).ctx j = f (s.ctx j) := Function.update_self _ _ _
      rw [hself]
      exact ⟨hclient, hserver, hthread⟩
    · have hother : (s.update i f).ctx j = s.ctx j := Function.update_of_ne hj _ _
      rw [hother]
      exact ⟨rfl, rfl, rfl⟩
  refine ⟨⟨h.acceptor.carried, fun j hj => ?_, fun client passthrough j hj => ?_⟩, fun j => ?_,
    h.logged, h.known⟩
  · rw [(hctx j).1]
    exact h.acceptor.target j hj
  · rw [(hctx j).2.2]
    exact h.acceptor.creating client passthrough j hj
  · obtain ⟨hclient, hserver, hthread⟩ := hctx j
    exact ctxInv_congr (h.ctx j) hclient hserver hthread

/-- The acceptor comes to the next context, to its thread, or to the end of the contexts. -/
theorem inv_testClient (h : Inv s)
    (hpc : s.acceptor = .start .testClient client passthrough i) (create : ThreadCreate) :
    Inv (s.startStep create client passthrough i .testClient) := by
  unfold Handover.startStep
  dsimp only
  by_cases hi : i < s.cnt
  · rw [if_pos hi]
    by_cases hidle : (s.ctx i).clientSocket = invalidSocket
    · rw [if_pos hidle]
      exact inv_goto h hpc rfl (fun _ => hidle) fun hcreate => by cases hcreate
    · rw [if_neg hidle]
      exact inv_goto h hpc rfl (fun hfound => by cases hfound) fun hcreate => by cases hcreate
  · rw [if_neg hi]
    exact inv_goto h hpc rfl (fun hfound => by cases hfound) fun hcreate => by cases hcreate

/-- The acceptor has found a free context, with a thread or without. -/
theorem inv_testThread (h : Inv s)
    (hpc : s.acceptor = .start .testThread client passthrough i) (create : ThreadCreate) :
    Inv (s.startStep create client passthrough i .testThread) := by
  have hidle := clientSocket_of_found h hpc rfl
  unfold Handover.startStep
  dsimp only
  by_cases hthread : (s.ctx i).thread = 0
  · rw [if_pos hthread]
    exact inv_goto h hpc rfl (fun _ => hidle) fun _ => hthread
  · rw [if_neg hthread]
    exact inv_goto h hpc rfl (fun _ => hidle) fun hcreate => by cases hcreate

/-- A new thread begins in a context that has had none. -/
theorem inv_createThread (h : Inv s)
    (hpc : s.acceptor = .start .createThread client passthrough i) (create : ThreadCreate) :
    Inv (s.startStep create client passthrough i .createThread) := by
  have habsent : s.worker i = .absent := by
    by_contra hne
    exact (h.ctx i).created hne (h.acceptor.creating client passthrough i hpc)
  have hctx := h.ctx i
  rw [habsent] at hctx
  have hself : (s.update i fun ctx => { ctx with thread := create.thread }).ctx i =
      { s.ctx i with thread := create.thread } := Function.update_self _ _ _
  have hother : ∀ j, j ≠ i →
      (s.update i fun ctx => { ctx with thread := create.thread }).ctx j = s.ctx j :=
    fun j hj => Function.update_of_ne hj _ _
  unfold Handover.startStep
  dsimp only
  by_cases hresult : create.result ≠ 0
  · rw [if_pos hresult]
    refine ⟨⟨fun _ hcarries => hcarries.elim, fun _ htargets => htargets.elim,
      fun _ _ _ hidle => by cases hidle⟩, fun j => ?_, h.logged, h.known⟩
    show CtxInv s.log j ((s.update i fun ctx => { ctx with thread := create.thread }).ctx j)
      (s.worker j) (s.seen j)
    by_cases hj : j = i
    · subst hj
      rw [hself, habsent]
      exact ⟨fun hne => absurd rfl hne, hctx.inside, hctx.held, hctx.unclosed, hctx.closed,
        hctx.opened, hctx.ending⟩
    · rw [hother j hj]
      exact h.ctx j
  · rw [if_neg hresult]
    refine ⟨⟨?_, ?_, fun _ _ _ hreset => by cases hreset⟩, fun j => ?_, h.logged, h.known⟩
    · rintro client' ⟨-, hclient⟩
      apply h.acceptor.carried client'
      rw [hpc]
      exact ⟨rfl, hclient⟩
    · rintro j ⟨-, rfl⟩
      have htarget := clientSocket_of_found h hpc rfl
      show ((s.update j fun ctx => { ctx with thread := create.thread }).ctx j).clientSocket =
        invalidSocket
      rw [hself]
      exact htarget
    · show CtxInv s.log j ((s.update i fun ctx => { ctx with thread := create.thread }).ctx j)
        (Function.update s.worker i .wait j) (s.seen j)
      by_cases hj : j = i
      · subst hj
        rw [hself, Function.update_self]
        refine ⟨fun _ => create.created (not_not.mp hresult), fun hinside => ?_, hctx.held,
          hctx.unclosed, fun hclearing => ?_, fun hserving => ?_, fun hending => ?_⟩
        · cases hinside
        · cases hclearing
        · cases hserving
        · cases hending
      · rw [hother j hj, Function.update_of_ne hj]
        exact h.ctx j

/-- The acceptor installs its client. The worker of the context is not inside, since there
has been no client before it. -/
theorem inv_setClient (h : Inv s)
    (hpc : s.acceptor = .start .setClient client passthrough i) (create : ThreadCreate) :
    Inv (s.startStep create client passthrough i .setClient) := by
  have hcarries : carries s.acceptor client := by
    rw [hpc]
    exact ⟨rfl, rfl⟩
  have htarget := clientSocket_of_found h hpc rfl
  obtain ⟨hmem, -, hnew⟩ := h.acceptor.carried client hcarries
  have hctx := h.ctx i
  have houtside : inside (s.worker i) ≠ true := by
    intro hinside
    obtain ⟨hclient, hvalid⟩ := hctx.inside hinside
    exact hvalid (hclient ▸ htarget)
  have hnotClearing : clearing (s.worker i) ≠ true := by
    intro hclearing
    exact houtside (inside_of_clearing hclearing)
  refine ⟨⟨?_, ?_, ?_⟩, fun j => ?_, .cons (.install i hnew) h.logged, fun e he => ?_⟩
  · rintro _ ⟨hcarrying, -⟩
    cases hcarrying
  · rintro _ ⟨hfound, -⟩
    cases hfound
  · intro _ _ _ hstart
    cases hstart
  · show CtxInv (.install i client :: s.log) j
      ((s.update i fun ctx => { ctx with clientSocket := client }).ctx j) (s.worker j) (s.seen j)
    by_cases hj : j = i
    · subst hj
      have hself : (s.update j fun ctx => { ctx with clientSocket := client }).ctx j =
          { s.ctx j with clientSocket := client } := Function.update_self _ _ _
      rw [hself]
      refine ⟨hctx.created, fun hinside => absurd hinside houtside, fun _ => List.mem_cons_self,
        fun _ _ e he => ?_, fun hclearing => absurd hclearing hnotClearing,
        fun hserving hserver => List.mem_cons_of_mem _ (hctx.opened hserving hserver),
        fun hending => List.mem_cons_of_mem _ (hctx.ending hending)⟩
      cases he with
      | head => rfl
      | tail _ he =>
          by_contra hcloses
          exact hnew e he (subject_of_closes (by simpa using hcloses))
    · have hother : (s.update i fun ctx => { ctx with clientSocket := client }).ctx j = s.ctx j :=
        Function.update_of_ne hj _ _
      rw [hother]
      exact ctxInv_cons (h.ctx j) fun _ => rfl
  · cases he with
    | head => exact hmem
    | tail _ he => exact h.known e he

/-- The acceptor closes a client for which there is no context. -/
theorem inv_refuse (h : Inv s)
    (hpc : s.acceptor = .start .closeClient client passthrough i) (create : ThreadCreate) :
    Inv (s.startStep create client passthrough i .closeClient) := by
  have hcarries : carries s.acceptor client := by
    rw [hpc]
    exact ⟨rfl, rfl⟩
  obtain ⟨hmem, -, hnew⟩ := h.acceptor.carried client hcarries
  refine ⟨acceptorInv_idle rfl, fun j => ctxInv_cons (h.ctx j) fun hvalid => ?_,
    .cons (.refuse hnew) h.logged, fun e he => ?_⟩
  · apply decide_eq_false
    rintro rfl
    exact hnew _ ((h.ctx j).held hvalid) rfl
  · cases he with
    | head => exact hmem
    | tail _ he => exact h.known e he

/-- **Every step of the acceptor keeps the invariant.** -/
theorem inv_startStep (h : Inv s) {pc : StartPc}
    (hpc : s.acceptor = .start pc client passthrough i) (create : ThreadCreate) :
    Inv (s.startStep create client passthrough i pc) := by
  cases pc with
  | testClient => exact inv_testClient h hpc create
  | testThread => exact inv_testThread h hpc create
  | createThread => exact inv_createThread h hpc create
  | resetClientRing =>
      have hreset := inv_update_acceptor (i := i) h
        (fun ctx => { ctx with clientRing := butilResetRing ctx.clientRing }) rfl rfl rfl
      exact inv_goto hreset hpc rfl (fun _ => clientSocket_of_found hreset hpc rfl)
        fun hcreate => by cases hcreate
  | resetServerRing =>
      have hreset := inv_update_acceptor (i := i) h
        (fun ctx => { ctx with serverRing := butilResetRing ctx.serverRing }) rfl rfl rfl
      exact inv_goto hreset hpc rfl (fun _ => clientSocket_of_found hreset hpc rfl)
        fun hcreate => by cases hcreate
  | setClient => exact inv_setClient h hpc create
  | setPassthrough =>
      exact inv_idle (inv_update_acceptor (i := i) h
        (fun ctx => { ctx with passthrough := passthrough }) rfl rfl rfl)
  | closeClient => exact inv_refuse h hpc create

/-- A client that arrives is carried by the acceptor alone. -/
theorem inv_arrive (h : Inv s) : Inv (s.arrive client passthrough) := by
  unfold Handover.arrive
  by_cases hidle : s.acceptor = .idle ∧ s.Fresh client
  · rw [if_pos hidle]
    obtain ⟨-, hfresh⟩ := hidle
    refine ⟨⟨?_, ?_, ?_⟩, h.ctx, h.logged, fun e he => List.mem_cons_of_mem _ (h.known e he)⟩
    · rintro client' ⟨-, rfl⟩
      refine ⟨List.mem_cons_self, ?_, new_of_fresh h hfresh⟩
      rintro rfl
      have hnonneg := hfresh.1
      simp [invalidSocket] at hnonneg
    · rintro _ ⟨hfound, -⟩
      cases hfound
    · intro _ _ _ hstart
      cases hstart
  · rw [if_neg hidle]
    exact h

end Acceptor

/-! ## Whole runs -/

section Runs

variable {s : Handover}

/-- **Whatever happens next keeps the invariant.** -/
theorem inv_handoverStep (h : Inv s) (input : HandoverInput) : Inv (handoverStep s input) := by
  cases input with
  | arrive client passthrough => exact inv_arrive h
  | acceptor create =>
      unfold handoverStep
      cases hpc : s.acceptor with
      | idle => exact h
      | start pc client passthrough i => exact inv_startStep h hpc create
  | worker i event => exact inv_workerStep h event

/-- The acceptor changes the context it is at and no other. -/
theorem startStep_ctx_of_ne (s : Handover) (create : ThreadCreate) (client : ℤ) (passthrough : Bool)
    {i k : ℕ} (hi : i ≠ k) (pc : StartPc) :
    (s.startStep create client passthrough k pc).ctx i = s.ctx i := by
  unfold Handover.startStep
  cases pc with
  | testClient =>
      dsimp only
      split_ifs
      · rfl
      · rfl
      · rfl
  | testThread =>
      dsimp only
      split_ifs
      · rfl
      · rfl
  | createThread =>
      dsimp only
      split_ifs
      · exact Function.update_of_ne hi _ _
      · exact Function.update_of_ne hi _ _
  | resetClientRing => exact Function.update_of_ne hi _ _
  | resetServerRing => exact Function.update_of_ne hi _ _
  | setClient => exact Function.update_of_ne hi _ _
  | setPassthrough => exact Function.update_of_ne hi _ _
  | closeClient => rfl

/-- The acceptor leaves the client and the rings of a context with a client alone. -/
theorem startStep_keeps (h : Inv s) {pc : StartPc} {client : ℤ} {passthrough : Bool} {k : ℕ}
    (hpc : s.acceptor = .start pc client passthrough k) (create : ThreadCreate) {i : ℕ}
    (hvalid : (s.ctx i).clientSocket ≠ invalidSocket) :
    ((s.startStep create client passthrough k pc).ctx i).clientSocket = (s.ctx i).clientSocket ∧
      ((s.startStep create client passthrough k pc).ctx i).clientRing = (s.ctx i).clientRing ∧
      ((s.startStep create client passthrough k pc).ctx i).serverRing = (s.ctx i).serverRing := by
  by_cases hi : i = k
  · subst hi
    have hfound : found pc ≠ true := fun hfound => hvalid (clientSocket_of_found h hpc hfound)
    cases pc with
    | testClient =>
        unfold Handover.startStep
        dsimp only
        split_ifs
        · exact ⟨rfl, rfl, rfl⟩
        · exact ⟨rfl, rfl, rfl⟩
    | setPassthrough =>
        have hctx : (s.startStep create client passthrough i .setPassthrough).ctx i =
            { s.ctx i with passthrough := passthrough } := Function.update_self _ _ _
        rw [hctx]
        exact ⟨rfl, rfl, rfl⟩
    | closeClient => exact ⟨rfl, rfl, rfl⟩
    | testThread => exact absurd rfl hfound
    | createThread => exact absurd rfl hfound
    | resetClientRing => exact absurd rfl hfound
    | resetServerRing => exact absurd rfl hfound
    | setClient => exact absurd rfl hfound
  · rw [startStep_ctx_of_ne s create client passthrough hi pc]
    exact ⟨rfl, rfl, rfl⟩

/-- The acceptor leaves a context with a client as it is, but for the mode. -/
theorem acceptor_keeps (h : Inv s) (create : ThreadCreate) {i : ℕ}
    (hvalid : (s.ctx i).clientSocket ≠ invalidSocket) :
    ((handoverStep s (.acceptor create)).ctx i).clientSocket = (s.ctx i).clientSocket ∧
      ((handoverStep s (.acceptor create)).ctx i).clientRing = (s.ctx i).clientRing ∧
      ((handoverStep s (.acceptor create)).ctx i).serverRing = (s.ctx i).serverRing := by
  unfold handoverStep
  cases hpc : s.acceptor with
  | idle => exact ⟨rfl, rfl, rfl⟩
  | start pc client passthrough k => exact startStep_keeps h hpc create hvalid

/-- What a step of a worker leaves alone: the acceptor, the other contexts, the flag of its own
context, and the client of that unless it has been closed. -/
structure WorkerKeeps (s s' : Handover) (k : ℕ) : Prop where
  acceptor : s'.acceptor = s.acceptor
  sockets : ∀ socket ∈ s.sockets, socket ∈ s'.sockets
  others : ∀ i, i ≠ k → s'.ctx i = s.ctx i
  passthrough : (s'.ctx k).passthrough = (s.ctx k).passthrough
  client : (s'.ctx k).clientSocket = (s.ctx k).clientSocket ∨
    clearing (s.worker k) = true ∧ (s'.ctx k).clientSocket = invalidSocket

/-- A worker that changes no context keeps what the acceptor relies on. -/
theorem workerKeeps_of_ctx {s s' : Handover} (k : ℕ) (hacceptor : s'.acceptor = s.acceptor)
    (hsockets : ∀ socket ∈ s.sockets, socket ∈ s'.sockets) (hctx : s'.ctx = s.ctx) :
    WorkerKeeps s s' k := by
  refine ⟨hacceptor, hsockets, ?_, ?_, Or.inl ?_⟩
  · intro i _
    rw [hctx]
  · rw [hctx]
  · rw [hctx]

/-- The same of a worker that changes its own context, and of its client not more than to clear it.
-/
theorem workerKeeps_of_update {s s' : Handover} {k : ℕ} {ctx : SmbCtx}
    (hacceptor : s'.acceptor = s.acceptor) (hsockets : ∀ socket ∈ s.sockets, socket ∈ s'.sockets)
    (hctx : s'.ctx = Function.update s.ctx k ctx)
    (hpassthrough : ctx.passthrough = (s.ctx k).passthrough)
    (hclient : ctx.clientSocket = (s.ctx k).clientSocket ∨
      clearing (s.worker k) = true ∧ ctx.clientSocket = invalidSocket) : WorkerKeeps s s' k := by
  have hself : s'.ctx k = ctx := by rw [hctx, Function.update_self]
  refine ⟨hacceptor, hsockets, ?_, ?_, ?_⟩
  · intro i hi
    rw [hctx, Function.update_of_ne hi]
  · rw [hself]
    exact hpassthrough
  · rw [hself]
    exact hclient

/-- What every step of a worker leaves to the acceptor and to the other contexts. -/
theorem workerStep_keeps (s : Handover) (k : ℕ) (event : WorkerEvent) :
    WorkerKeeps s (s.workerStep k event) k := by
  have hsame : ∀ s' : Handover, s'.acceptor = s.acceptor → s'.sockets = s.sockets →
      s'.ctx = s.ctx → WorkerKeeps s s' k := fun s' hacceptor hsockets hctx =>
    workerKeeps_of_ctx k hacceptor (fun socket hmem => hsockets ▸ hmem) hctx
  have hself := hsame s rfl rfl rfl
  unfold Handover.workerStep
  cases hpc : s.worker k with
  | absent => exact hself
  | wait =>
      dsimp only
      split_ifs
      · exact hself
      · exact hsame _ rfl rfl rfl
  | testSeen =>
      dsimp only
      split_ifs
      · exact hsame _ rfl rfl rfl
      · exact hsame _ rfl rfl rfl
  | connect => exact workerKeeps_of_update rfl (fun _ hmem => hmem) rfl rfl (Or.inl rfl)
  | connecting =>
      cases event with
      | connect event =>
          unfold Handover.connectStep
          cases event with
          | noSocket => exact hsame _ rfl rfl rfl
          | refused server =>
              dsimp only
              split_ifs
              · exact workerKeeps_of_ctx k rfl (fun _ => List.mem_cons_of_mem server) rfl
              · exact hself
          | connected server =>
              dsimp only
              split_ifs
              · exact workerKeeps_of_update rfl (fun _ => List.mem_cons_of_mem server) rfl rfl
                  (Or.inl rfl)
              · exact hself
      | run => exact hself
      | traffic clientRing serverRing => exact hself
      | ending => exact hself
  | testServer =>
      dsimp only
      split_ifs
      · exact hsame _ rfl rfl rfl
      · exact hsame _ rfl rfl rfl
  | closeEarly => exact hsame _ rfl rfl rfl
  | clearEarly =>
      have hclearing : clearing (s.worker k) = true := by rw [hpc]; rfl
      exact workerKeeps_of_update rfl (fun _ hmem => hmem) rfl rfl (Or.inr ⟨hclearing, rfl⟩)
  | proxy =>
      cases event with
      | traffic clientRing serverRing =>
          exact workerKeeps_of_update rfl (fun _ hmem => hmem) rfl rfl (Or.inl rfl)
      | ending => exact hsame _ rfl rfl rfl
      | run => exact hself
      | connect event => exact hself
  | testClient =>
      dsimp only
      split_ifs
      · exact hsame _ rfl rfl rfl
      · exact hsame _ rfl rfl rfl
  | closeClient => exact hsame _ rfl rfl rfl
  | clearClient =>
      have hclearing : clearing (s.worker k) = true := by rw [hpc]; rfl
      exact workerKeeps_of_update rfl (fun _ hmem => hmem) rfl rfl (Or.inr ⟨hclearing, rfl⟩)
  | testServerEnd =>
      dsimp only
      split_ifs
      · exact hsame _ rfl rfl rfl
      · exact hsame _ rfl rfl rfl
  | closeServer => exact hsame _ rfl rfl rfl
  | clearServer => exact workerKeeps_of_update rfl (fun _ hmem => hmem) rfl rfl (Or.inl rfl)

/-- A client that has not been closed stays in its context. -/
theorem handoverStep_client (h : Inv s) {i : ℕ} (hvalid : (s.ctx i).clientSocket ≠ invalidSocket)
    (hclearing : clearing (s.worker i) = false) (input : HandoverInput) :
    ((handoverStep s input).ctx i).clientSocket = (s.ctx i).clientSocket := by
  cases input with
  | arrive client passthrough =>
      show ((s.arrive client passthrough).ctx i).clientSocket = (s.ctx i).clientSocket
      unfold Handover.arrive
      split_ifs
      · rfl
      · rfl
  | acceptor create => exact (acceptor_keeps h create hvalid).1
  | worker k event =>
      show ((s.workerStep k event).ctx i).clientSocket = (s.ctx i).clientSocket
      have hkeeps := workerStep_keeps s k event
      by_cases hi : i = k
      · subst hi
        cases hkeeps.client with
        | inl hkept => exact hkept
        | inr hcleared =>
            rw [hclearing] at hcleared
            cases hcleared.1
      · rw [hkeeps.others i hi]

/-- The invariant says what is promised of the hand-over. -/
theorem handedOver_of_inv (h : Inv s) : HandedOver s where
  untouched i create hinside := by
    obtain ⟨hclient, hvalid⟩ := (h.ctx i).inside hinside
    exact acceptor_keeps h create (hclient ▸ hvalid)
  held_once i j client hi hj := by
    obtain ⟨rfl, hvalid⟩ := hi
    have hjvalid : (s.ctx j).clientSocket ≠ invalidSocket := by
      rw [hj.1]
      exact hvalid
    have hheld := (h.ctx j).held hjvalid
    rw [hj.1] at hheld
    exact installed_once h.logged ((h.ctx i).held hvalid) hheld
  installed i client hi := by
    obtain ⟨rfl, hvalid⟩ := hi
    exact (h.ctx i).held hvalid
  installed_once i j client := Analysis.installed_once h.logged
  closed_once i client := Analysis.closed_once h.logged
  closed_by i client e := Analysis.closed_by h.logged
  let_go i client input hi hgone := by
    obtain ⟨rfl, hvalid⟩ := hi
    by_cases hclearing : clearing (s.worker i) = true
    · rw [((h.ctx i).inside (inside_of_clearing hclearing)).1]
      exact (h.ctx i).closed hclearing
    · have hkeeps := handoverStep_client h hvalid (Bool.eq_false_of_not_eq_true hclearing) input
      exact absurd ⟨hkeeps, hvalid⟩ hgone
  server i client server before := server_opened h.logged

/-- **The hand-over is safe in every order of the steps.** -/
theorem handed_over (maxConnections : ℕ) (size : ℤ) (clientData serverData : ℕ → ℤ → UInt8)
    (inputs : List HandoverInput) :
    HandedOver (run handoverStep
      (Handover.init maxConnections size clientData serverData) inputs) :=
  handedOver_of_inv (run_invariant Inv (fun _ input h => inv_handoverStep h input)
    (inv_init maxConnections size clientData serverData) inputs)

end Runs

end SmbProxy.Analysis
