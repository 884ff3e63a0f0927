import SmbProxy.Interface.Pool

/-!
# Who owns a client after `smbgw_proxy_start`

The loop over the contexts passes those that have a client and ends at the first one that
has none, or behind them all (`StartLoop`). Of its three ends the one at `return`, where no
thread can be created, neither installs the client nor closes it; so
`smbgw_proxy_start` keeps the socket iff that end is not reached (`keepsSocket_iff`), and
the accept loop goes on iff no other end than `break` is (`serverStep_endsOnlyOnAccept_iff`).
-/

set_option autoImplicit false

namespace SmbProxy.Analysis

open SmbProxy.Library SmbProxy.Model SmbProxy.Interface

/-! ## The loop over the contexts -/

section StartLoop

variable {client : ℤ} {passthrough : Bool} {create : ThreadCreate}

/-- The ends of the loop over the contexts, with what it leaves. -/
inductive StartLoop (client : ℤ) (passthrough : Bool) (create : ThreadCreate) :
    List SmbCtx → List SmbCtx × StartLoopEnd → Prop
  | exhausted {pool : List SmbCtx} : (∀ ctx ∈ pool, ctx.clientSocket ≠ invalidSocket) →
      StartLoop client passthrough create pool (pool, .exhausted)
  /-- No thread can be created. -/
  | returned {busy rest : List SmbCtx} {ctx : SmbCtx} :
      (∀ ctx ∈ busy, ctx.clientSocket ≠ invalidSocket) → ctx.clientSocket = invalidSocket →
      ctx.thread = 0 → create.result ≠ 0 →
      StartLoop client passthrough create (busy ++ ctx :: rest)
        (busy ++ { ctx with thread := create.thread } :: rest, .returned)
  | broken {busy rest : List SmbCtx} {ctx : SmbCtx} (thread : ℕ) :
      (∀ ctx ∈ busy, ctx.clientSocket ≠ invalidSocket) → ctx.clientSocket = invalidSocket →
      (ctx.thread = 0 → create.result = 0) →
      StartLoop client passthrough create (busy ++ ctx :: rest)
        (busy ++ { ctx with thread := thread }.install client passthrough :: rest, .broken)

/-- **What the loop over the pool comes to.** -/
theorem startLoop_outcome (pool : List SmbCtx) :
    StartLoop client passthrough create pool (startLoop client passthrough create pool) := by
  induction pool with
  | nil => exact .exhausted fun ctx hctx => absurd hctx List.not_mem_nil
  | cons ctx rest ih =>
      unfold startLoop
      by_cases hidle : ctx.clientSocket = invalidSocket
      · have hnone : ∀ ctx ∈ ([] : List SmbCtx), ctx.clientSocket ≠ invalidSocket :=
          fun ctx hctx => absurd hctx List.not_mem_nil
        rw [if_pos hidle]
        by_cases hthread : ctx.thread = 0
        · rw [if_pos hthread]
          by_cases hresult : create.result = 0
          · rw [if_neg (not_not.mpr hresult)]
            exact .broken create.thread hnone hidle fun _ => hresult
          · rw [if_pos hresult]
            exact .returned hnone hidle hthread hresult
        · rw [if_neg hthread]
          exact .broken ctx.thread hnone hidle fun h => absurd h hthread
      · rw [if_neg hidle]
        generalize startLoop client passthrough create rest = result at ih
        have hbusy : ∀ busy : List SmbCtx, (∀ ctx ∈ busy, ctx.clientSocket ≠ invalidSocket) →
            ∀ ctx' ∈ ctx :: busy, ctx'.clientSocket ≠ invalidSocket := by
          intro busy h ctx' hctx'
          cases hctx' with
          | head => exact hidle
          | tail _ hmem => exact h ctx' hmem
        cases ih with
        | exhausted h => exact .exhausted (hbusy _ h)
        | returned h hctx hthread hresult =>
            exact @StartLoop.returned _ _ _ (ctx :: _) _ _ (hbusy _ h) hctx hthread hresult
        | broken thread h hctx hcan =>
            exact @StartLoop.broken _ _ _ (ctx :: _) _ _ thread (hbusy _ h) hctx hcan

/-- Where all contexts are busy none is idle. -/
theorem firstIdle_of_busy {pool : List SmbCtx}
    (h : ∀ ctx ∈ pool, ctx.clientSocket ≠ invalidSocket) : firstIdle pool = none := by
  apply List.find?_eq_none.mpr
  intro ctx hctx
  simpa using h ctx hctx

/-- The first idle context is the one behind those that are busy. -/
theorem firstIdle_append {busy rest : List SmbCtx} {ctx : SmbCtx}
    (h : ∀ ctx ∈ busy, ctx.clientSocket ≠ invalidSocket)
    (hidle : ctx.clientSocket = invalidSocket) :
    firstIdle (busy ++ ctx :: rest) = some ctx := by
  apply List.find?_eq_some_iff_append.mpr
  refine ⟨by simpa using hidle, busy, rest, rfl, fun ctx' hctx' => ?_⟩
  simpa using h ctx' hctx'

end StartLoop

/-! ## `smbgw_proxy_start` -/

section Start

variable {busy rest : List SmbCtx} {ctx ctx' : SmbCtx} {client : ℤ}

/-- Where a context of the pool is replaced. -/
theorem getElem?_replace (i : ℕ) :
    (busy ++ ctx' :: rest)[i]? = if i = busy.length then some ctx' else (busy ++ ctx :: rest)[i]? := by
  by_cases hi : i = busy.length
  · rw [if_pos hi, hi, List.getElem?_append_right le_rfl, Nat.sub_self]
    rfl
  · rw [if_neg hi]
    by_cases hlt : i < busy.length
    · rw [List.getElem?_append_left hlt, List.getElem?_append_left hlt]
    · obtain ⟨k, hk⟩ : ∃ k, i - busy.length = k + 1 := ⟨i - busy.length - 1, by omega⟩
      rw [List.getElem?_append_right (by omega), List.getElem?_append_right (by omega), hk]
      rfl

/-- The client is taken in the one place where the pool has changed. -/
theorem takenAt_replace (hclient : client ≠ invalidSocket)
    (hidle : ctx.clientSocket = invalidSocket) (htaken : ctx'.clientSocket = client) (i : ℕ) :
    TakenAt (busy ++ ctx :: rest) (busy ++ ctx' :: rest) client i ↔ i = busy.length := by
  unfold TakenAt
  constructor
  · rintro ⟨before, after, hbefore, hafter, hnone, hsome⟩
    by_contra hi
    rw [@getElem?_replace busy rest ctx ctx' i, if_neg hi, hbefore] at hafter
    cases hafter
    exact hclient (hsome.symm.trans hnone)
  · rintro rfl
    refine ⟨ctx, ctx', ?_, ?_, hidle, htaken⟩
    · rw [@getElem?_replace busy rest ctx ctx, if_pos rfl]
    · rw [@getElem?_replace busy rest ctx ctx', if_pos rfl]

/-- **When a client socket is neither lost nor owned twice**: whenever the first idle
context, if there is one, has its thread or the thread can be created. -/
theorem keepsSocket_iff (pool : List SmbCtx) (client : ℤ) (passthrough : Bool)
    (create : ThreadCreate) (hclient : client ≠ invalidSocket) :
    KeepsSocket pool client passthrough (smbgwProxyStart pool client passthrough create) ↔
      CanStart pool create := by
  have houtcome := @startLoop_outcome client passthrough create pool
  have hfailed : (-1 : ℤ) ≠ 0 := by simp
  unfold smbgwProxyStart
  rw [if_neg hclient]
  generalize startLoop client passthrough create pool = result at houtcome
  cases houtcome with
  | exhausted hbusy =>
      constructor
      · intro _ ctx hctx
        rw [firstIdle_of_busy hbusy] at hctx
        cases hctx
      · intro _
        exact ⟨fun h => absurd h hfailed, fun _ => ⟨rfl, rfl⟩⟩
  | @returned busy rest ctx hbusy hidle hthread hresult =>
      constructor
      · intro h
        have hclosed := (h.refused hfailed).1
        cases hclosed
      · intro h
        exact absurd (h ctx (firstIdle_append hbusy hidle) hthread) hresult
  | @broken busy rest ctx thread hbusy hidle hcan =>
      constructor
      · intro _ ctx' hctx'
        rw [firstIdle_append hbusy hidle] at hctx'
        cases hctx'
        exact hcan
      · intro _
        have htaken := @takenAt_replace busy rest ctx
          ({ ctx with thread := thread }.install client passthrough) client hclient hidle rfl
        refine ⟨fun _ => ⟨rfl, ⟨busy.length, (htaken _).mpr rfl, fun i hi => (htaken i).mp hi⟩, ?_, ?_⟩,
          fun h => absurd rfl h⟩
        · intro i ctx' hi hctx'
          rw [(htaken i).mp hi, @getElem?_replace busy rest ctx, if_pos rfl] at hctx'
          cases hctx'
          exact ⟨rfl, rfl, rfl⟩
        · intro i hi
          rw [htaken i] at hi
          rw [@getElem?_replace busy rest ctx, if_neg hi]

/-- After `smbgw_proxy_init` no context has a thread, and one is created for the first. -/
theorem keepsSocket_iff_running :
    KeepsSocket (smbgwProxyInit 1 16 (fun _ _ => 0) fun _ _ => 0) 5 true
      (smbgwProxyStart (smbgwProxyInit 1 16 (fun _ _ => 0) fun _ _ => 0) 5 true
        ⟨0, 7, fun _ => by decide⟩) :=
  (keepsSocket_iff _ 5 true _ (by decide)).mpr fun _ _ _ => rfl

/-- **A client socket can be lost**: no thread can be created for the first idle context. -/
theorem not_keepsSocket : ¬ ∀ (pool : List SmbCtx) (client : ℤ) (passthrough : Bool)
    (create : ThreadCreate), client ≠ invalidSocket →
      KeepsSocket pool client passthrough (smbgwProxyStart pool client passthrough create) := by
  intro h
  have hkeeps := h (smbgwProxyInit 1 16 (fun _ _ => 0) fun _ _ => 0) 5 true
    ⟨11, 0, fun h => absurd h (by simp)⟩ (by decide)
  have hclosed := (hkeeps.refused (by decide)).1
  exact absurd hclosed (by decide)

end Start

/-! ## The accept loop -/

section AcceptLoop

variable {passthrough : Bool} {s : Server} {create : ThreadCreate}

/-- To change an idle context leaves those that are busy. -/
theorem untouched_replace {busy rest : List SmbCtx} {ctx ctx' : SmbCtx}
    (hidle : ctx.clientSocket = invalidSocket) :
    Untouched (busy ++ ctx :: rest) (busy ++ ctx' :: rest) := by
  intro i running hrunning hclient
  by_cases hi : i = busy.length
  · rw [@getElem?_replace busy rest ctx ctx, if_pos hi] at hrunning
    cases hrunning
    exact absurd hidle hclient
  · rw [@getElem?_replace busy rest ctx, if_neg hi]
    exact hrunning

/-- What becomes of a client that arrives. -/
theorem smbgwProxyStart_outcome (pool : List SmbCtx) {client : ℤ} (passthrough : Bool)
    (create : ThreadCreate) (hclient : client ≠ invalidSocket) :
    Untouched pool (smbgwProxyStart pool client passthrough create).pool ∧
      ((smbgwProxyStart pool client passthrough create).result = 0 ↔
        (firstIdle pool).isSome ∧ CanStart pool create) := by
  have houtcome := @startLoop_outcome client passthrough create pool
  have hfailed : (-1 : ℤ) ≠ 0 := by simp
  unfold smbgwProxyStart
  rw [if_neg hclient]
  generalize startLoop client passthrough create pool = result at houtcome
  cases houtcome with
  | exhausted hbusy =>
      refine ⟨fun _ _ h _ => h, fun h => absurd h hfailed, fun h => ?_⟩
      rw [firstIdle_of_busy hbusy] at h
      cases h.1
  | @returned busy rest ctx hbusy hidle hthread hresult =>
      refine ⟨untouched_replace hidle, fun h => absurd h hfailed, fun h => ?_⟩
      exact absurd (h.2 ctx (firstIdle_append hbusy hidle) hthread) hresult
  | @broken busy rest ctx thread hbusy hidle hcan =>
      refine ⟨untouched_replace hidle, fun _ => ?_, fun _ => rfl⟩
      rw [CanStart, firstIdle_append hbusy hidle]
      refine ⟨rfl, fun ctx' hctx' => ?_⟩
      cases hctx'
      exact hcan

/-- A socket of the system is a valid one. -/
theorem socket_ne_invalid (clientsock : ℕ) : (clientsock : ℤ) ≠ invalidSocket := by
  unfold invalidSocket
  omega

/-- The pass of the accept loop in which a client arrives. -/
theorem accept_accepted (clientsock : ℕ) :
    s.accept passthrough (.accepted clientsock) create =
      { pool := (smbgwProxyStart s.pool clientsock passthrough create).pool
        closed := s.closed ++ (smbgwProxyStart s.pool clientsock passthrough create).closed
        ended :=
          if (smbgwProxyStart s.pool clientsock passthrough create).result ≠ 0 then some .start
          else none } := by
  unfold Server.accept tcpAcceptConnection
  dsimp only
  rw [if_neg (not_not.mpr rfl), if_pos (socket_ne_invalid clientsock)]

/-- A pass of the accept loop leaves the contexts that are busy. -/
theorem serverStep_untouched (event : AcceptEvent) :
    Untouched s.pool (serverStep passthrough s (.accept event create)).pool := by
  have hsame : Untouched s.pool s.pool := fun _ _ h _ => h
  unfold serverStep
  by_cases hended : s.ended = none
  · rw [if_pos hended]
    cases event with
    | accepted clientsock =>
        show Untouched s.pool (s.accept passthrough (.accepted clientsock) create).pool
        rw [accept_accepted]
        exact (smbgwProxyStart_outcome s.pool passthrough create (socket_ne_invalid clientsock)).1
    | selectFailed => exact hsame
    | timeout => exact hsame
    | acceptFailed => exact hsame
    | ioctlFailed clientsock => exact hsame
  · rw [if_neg hended]
    exact hsame

/-- A step ends the accept loop on a client exactly if the client is not admitted. -/
theorem serverStep_endsOnlyOnAccept_iff (h : EndsOnlyOnAccept s) (input : ServerInput) :
    EndsOnlyOnAccept (serverStep passthrough s input) ↔ Admits s input := by
  have hnone : (none : Option LoopEnd) ≠ some .start := by simp
  have haccept : some LoopEnd.accept ≠ some .start := by simp
  unfold serverStep
  by_cases hended : s.ended = none
  · rw [if_pos hended]
    cases input with
    | work i serverSocket clientRing serverRing =>
        exact iff_of_true h trivial
    | ending i => exact iff_of_true h trivial
    | accept event create =>
        cases event with
        | selectFailed => exact iff_of_true haccept trivial
        | timeout => exact iff_of_true h trivial
        | acceptFailed => exact iff_of_true haccept trivial
        | ioctlFailed clientsock => exact iff_of_true haccept trivial
        | accepted clientsock =>
            have hstart :=
              (smbgwProxyStart_outcome s.pool passthrough create (socket_ne_invalid clientsock)).2
            show EndsOnlyOnAccept (s.accept passthrough (.accepted clientsock) create) ↔
              (s.ended = none → (firstIdle s.pool).isSome ∧ CanStart s.pool create)
            rw [accept_accepted, ← hstart]
            unfold EndsOnlyOnAccept
            by_cases hresult : (smbgwProxyStart s.pool clientsock passthrough create).result = 0
            · simp [hresult]
            · simp [hresult, hended]
  · rw [if_neg hended]
    refine iff_of_true h ?_
    cases input with
    | work i serverSocket clientRing serverRing => trivial
    | ending i => trivial
    | accept event create =>
        cases event with
        | accepted clientsock => exact fun hnone => absurd hnone hended
        | selectFailed => trivial
        | timeout => trivial
        | acceptFailed => trivial
        | ioctlFailed clientsock => trivial

/-- **When the accept loop survives its clients.** It is ended by nothing but
`tcp_accept_connection`, and the running connections are left alone, iff every client that
arrives finds an idle context, the first of which can be started. -/
theorem accept_loop_survives_iff (maxConnections : ℕ) (clientData serverData : ℕ → ℤ → UInt8)
    (passthrough : Bool) (inputs : List ServerInput) :
    SurvivesOverload passthrough (Server.init maxConnections clientData serverData) inputs ↔
      Along (serverStep passthrough) Admits (Server.init maxConnections clientData serverData)
        inputs := by
  have hinit : EndsOnlyOnAccept (Server.init maxConnections clientData serverData) := by
    intro h
    cases h
  rw [← run_invariant_iff Admits EndsOnlyOnAccept
    (fun s input h => serverStep_endsOnlyOnAccept_iff h input) hinit]
  constructor
  · intro h before hbefore
    exact (h before hbefore).1
  · intro h before hbefore
    exact ⟨h before hbefore, fun event create => serverStep_untouched event⟩

/-- **Overload ends the accept loop**: of two clients of a pool of one the second does. -/
theorem not_survivesOverload : ¬ ∀ (maxConnections : ℕ) (clientData serverData : ℕ → ℤ → UInt8)
    (passthrough : Bool) (inputs : List ServerInput),
      SurvivesOverload passthrough (Server.init maxConnections clientData serverData) inputs := by
  intro h
  have hsurvives := h 1 (fun _ _ => 0) (fun _ _ => 0) true
    [.accept (.accepted 5) ⟨0, 7, fun _ => by simp⟩,
      .accept (.accepted 6) ⟨0, 7, fun _ => by simp⟩]
  exact (hsurvives _ List.prefix_rfl).1 rfl

end AcceptLoop

end SmbProxy.Analysis
