import SmbProxy.Interface.Init

/-!
# When initialisation is all or nothing

The loop over the contexts obtains the blocks that are in the contexts it leaves, whether it
is cut short or not (`initLoop_outcome`), and the clean-up loop frees those
(`freeLoop_freed`). The one exit that leaves `s_ctx_cnt` as it was is the one at which there
is no block for the contexts (`allOrNothing_iff`). A set-up that succeeds leaves the pool that
`Model.Pool` starts from (`load_of_success`).
-/

set_option autoImplicit false

namespace SmbProxy.Analysis

open SmbProxy.Library SmbProxy.Model SmbProxy.Interface

/-! ## The two loops -/

section Loops

variable {ok : ℕ → Bool} {size : ℤ}

/-- The blocks that the contexts have their data in. -/
def ctxBlocks (contexts : List CtxRecord) : List ℕ :=
  contexts.flatMap fun ctx => ctx.clientRing.data.toList ++ ctx.serverRing.data.toList

/-- The context `i` with its data in a block and the next one. -/
def readyCtx (size : ℤ) (i block : ℕ) : CtxRecord where
  clientSocket := invalidSocket
  serverSocket := invalidSocket
  clientRing := ⟨0, 0, 0, size, some block⟩
  serverRing := ⟨0, 0, 0, size, some (block + 1)⟩
  passthrough := false
  ordinal := i
  thread := 0

/-- The contexts from `i` on, with their data in the blocks from `block` on. -/
def readyCtxs (size : ℤ) (i block n : ℕ) : List CtxRecord :=
  (List.range n).map fun k => readyCtx size (i + k) (block + 2 * k)

/-- One more context has two blocks more. -/
theorem readyCtxs_succ (i block n : ℕ) :
    readyCtxs size i block (n + 1) =
      readyCtx size i block :: readyCtxs size (i + 1) (block + 2) n := by
  unfold readyCtxs
  rw [List.range_succ_eq_map, List.map_cons, List.map_map]
  congr 1
  apply List.map_congr_left
  intro k _
  simp only [Function.comp_apply]
  congr 1
  · omega
  · omega

/-- What the loop over the contexts leaves: every block that it has obtained is in a context. -/
structure LoopOutcome (size : ℤ) (i n : ℕ) (heap : Heap) (out : Bool × List CtxRecord × Heap) :
    Prop where
  obtained : out.2.2.obtained = (ctxBlocks out.2.1).reverse ++ heap.obtained
  freed : out.2.2.freed = heap.freed
  wellFormed : heap.WellFormed → out.2.2.WellFormed
  contexts : out.1 = true → out.2.1 = readyCtxs size i heap.calls n

/-- The blocks of contexts are those of the first one and of the others. -/
theorem ctxBlocks_cons (ctx : CtxRecord) (contexts : List CtxRecord) :
    ctxBlocks (ctx :: contexts) =
      ctx.clientRing.data.toList ++ ctx.serverRing.data.toList ++ ctxBlocks contexts := rfl

/-- Contexts that have been cleared have no blocks. -/
theorem ctxBlocks_zero (n : ℕ) : ctxBlocks (List.replicate n zeroCtx) = [] := by
  induction n with
  | zero => rfl
  | succ n ih => rw [List.replicate_succ, ctxBlocks_cons, ih]; rfl

/-- **What the loop over the contexts leaves**: all of them ready, or those before a `malloc` that
has failed. -/
theorem initLoop_outcome (i n : ℕ) (heap : Heap) :
    LoopOutcome size i n heap (initLoop ok size i (List.replicate n zeroCtx) heap) := by
  induction n generalizing i heap with
  | zero => exact ⟨rfl, rfl, id, fun _ => rfl⟩
  | succ n ih =>
      rw [List.replicate_succ]
      unfold initLoop
      have hwf := fun h : heap.WellFormed => @Heap.wellFormed_malloc ok _ h
      cases hclient : ok heap.calls with
      | false =>
          rw [Heap.malloc_of_not_ok hclient] at hwf ⊢
          dsimp only
          rw [if_pos rfl]
          refine ⟨?_, rfl, hwf, fun h => absurd h Bool.false_ne_true⟩
          rw [ctxBlocks_cons, ctxBlocks_zero]
          rfl
      | true =>
          rw [Heap.malloc_of_ok hclient] at hwf ⊢
          dsimp only
          rw [if_neg (by simp)]
          have hwf' := fun h : heap.WellFormed => @Heap.wellFormed_malloc ok _ (hwf h)
          cases hserver : ok (heap.calls + 1) with
          | false =>
              rw [Heap.malloc_of_not_ok hserver] at hwf' ⊢
              dsimp only
              rw [if_pos rfl]
              refine ⟨?_, rfl, hwf', fun h => absurd h Bool.false_ne_true⟩
              rw [ctxBlocks_cons, ctxBlocks_zero]
              rfl
          | true =>
              rw [Heap.malloc_of_ok hserver] at hwf' ⊢
              dsimp only at hwf' ⊢
              rw [if_neg (by simp)]
              have hrest := ih (i + 1)
                ⟨heap.calls + 1 + 1, (heap.calls + 1) :: heap.calls :: heap.obtained, heap.freed⟩
              generalize initLoop ok size (i + 1) (List.replicate n zeroCtx)
                ⟨heap.calls + 1 + 1, (heap.calls + 1) :: heap.calls :: heap.obtained,
                  heap.freed⟩ = out at hrest ⊢
              obtain ⟨hobtained, hfreed, hkeeps, hcontexts⟩ := hrest
              refine ⟨?_, hfreed, fun h => hkeeps (hwf' h), fun h => ?_⟩
              · show out.2.2.obtained = _
                rw [hobtained, ctxBlocks_cons]
                simp [RingRecord.reset]
              · show _ :: out.2.1 = _
                rw [hcontexts h, readyCtxs_succ]
                rfl

/-- A buffer that is there is freed. -/
theorem freeData_freed (data : Option ℕ) (heap : Heap) :
    (freeData data heap).freed = data.toList ++ heap.freed := by
  cases data with
  | none => rfl
  | some block => rfl

/-- The clean-up loop frees the blocks in the contexts. -/
theorem freeLoop_freed (contexts : List CtxRecord) (heap : Heap) :
    (freeLoop contexts heap).freed = (ctxBlocks contexts).reverse ++ heap.freed := by
  induction contexts generalizing heap with
  | nil => rfl
  | cons ctx contexts ih =>
      have hone : ∀ data : Option ℕ, data.toList.reverse = data.toList := by
        intro data
        cases data with
        | none => rfl
        | some block => rfl
      rw [freeLoop, ih, freeData_freed, freeData_freed, ctxBlocks_cons]
      simp only [List.reverse_append, hone, List.append_assoc]

/-- To free leaves what has been obtained. -/
theorem freeLoop_obtained (contexts : List CtxRecord) (heap : Heap) :
    (freeLoop contexts heap).obtained = heap.obtained ∧
      (freeLoop contexts heap).calls = heap.calls := by
  have hdata : ∀ (data : Option ℕ) (heap : Heap), (freeData data heap).obtained = heap.obtained ∧
      (freeData data heap).calls = heap.calls := by
    intro data heap
    cases data with
    | none => exact ⟨rfl, rfl⟩
    | some block => exact ⟨rfl, rfl⟩
  induction contexts generalizing heap with
  | nil => exact ⟨rfl, rfl⟩
  | cons ctx contexts ih =>
      rw [freeLoop, (ih _).1, (ih _).2, (hdata _ _).1, (hdata _ _).1, (hdata _ _).2,
        (hdata _ _).2]
      exact ⟨rfl, rfl⟩

end Loops

/-! ## One call -/

section Call

variable {ok : ℕ → Bool} {g : Globals} {call : InitCall} {host : List UInt8}

/-- What the calls keep of the globals: the blocks are named by the calls of `malloc`, and
`smbgw_proxy_start` finds contexts that are set up. -/
structure InitInv (g : Globals) : Prop where
  heap : g.heap.WellFormed
  start : StartsReady g

/-- Before the first call there is nothing. -/
theorem initInv_init : InitInv Globals.init :=
  ⟨Heap.wellFormed_init, fun i hi => absurd hi (Nat.not_lt_zero i)⟩

/-- Without contexts there is none to be started. -/
theorem startsReady_of_none (h : g.sCtxCnt = 0) : StartsReady g := by
  intro i hi
  rw [h] at hi
  exact absurd hi (Nat.not_lt_zero i)

/-- The context that the loop has set up is ready in a heap with its blocks. -/
theorem ctxReady_readyCtx {heap : Heap} {size : ℤ} {i block : ℕ} (hblock : heap.Owned block)
    (hnext : heap.Owned (block + 1)) : CtxReady heap size (readyCtx size i block) :=
  ⟨⟨rfl, rfl⟩, ⟨⟨block, rfl, hblock⟩, ⟨rfl, rfl, rfl⟩, rfl⟩,
    ⟨⟨block + 1, rfl, hnext⟩, ⟨rfl, rfl, rfl⟩, rfl⟩⟩

/-- The two blocks of a context are among those of all. -/
theorem mem_ctxBlocks_readyCtxs {size : ℤ} {i block n k : ℕ} (hk : k < n) :
    block + 2 * k ∈ ctxBlocks (readyCtxs size i block n) ∧
      block + 2 * k + 1 ∈ ctxBlocks (readyCtxs size i block n) := by
  have hmem : readyCtx size (i + k) (block + 2 * k) ∈ readyCtxs size i block n :=
    List.mem_map.mpr ⟨k, List.mem_range.mpr hk, rfl⟩
  exact ⟨List.mem_flatMap.mpr ⟨_, hmem, by simp [readyCtx]⟩,
    List.mem_flatMap.mpr ⟨_, hmem, by simp [readyCtx]⟩⟩

/-- What a call with a host leaves. -/
inductive CallOutcome (ok : ℕ → Bool) (g : Globals) (call : InitCall) : ℤ × Globals → Prop
  /-- There is no block for the contexts. -/
  | noContexts {g' : Globals} : ok g.heap.calls = false → g'.sCtxCnt = g.sCtxCnt →
      g'.heap = (g.heap.malloc ok).2 → CallOutcome ok g call (-1, g')
  /-- A ring could not be allocated, and everything is given back. -/
  | givenBack {g' : Globals} : ok g.heap.calls = true → g'.sCtxCnt = 0 →
      g'.heap.WellFormed → g.heap.Returned g'.heap → CallOutcome ok g call (-1, g')
  /-- All contexts are set up. -/
  | setUp {g' : Globals} : ok g.heap.calls = true → g'.sCtxCnt = call.maxConnections →
      g'.sCtx = some ⟨g.heap.calls,
        readyCtxs call.iobufferSize 0 (g.heap.calls + 1) call.maxConnections⟩ →
      g'.heap.WellFormed → g'.heap.freed = g.heap.freed →
      g'.heap.obtained =
        (ctxBlocks (readyCtxs call.iobufferSize 0 (g.heap.calls + 1) call.maxConnections)).reverse ++
          g.heap.calls :: g.heap.obtained →
      CallOutcome ok g call (0, g')

/-- **What a call of `smbgw_proxy_init` leaves.** -/
theorem call_outcome (hwf : g.heap.WellFormed) (hhost : call.serverHost = some host) :
    CallOutcome ok g call (g.smbgwProxyInit ok call) := by
  have hwf' := @Heap.wellFormed_malloc ok _ hwf
  unfold Globals.smbgwProxyInit
  rw [hhost]
  dsimp only
  cases hblock : ok g.heap.calls with
  | false =>
      have hheap := Heap.malloc_of_not_ok hblock
      rw [hheap]
      exact .noContexts hblock rfl (by rw [hheap])
  | true =>
      rw [Heap.malloc_of_ok hblock] at hwf' ⊢
      dsimp only at hwf' ⊢
      have houtcome := @initLoop_outcome ok call.iobufferSize 0 call.maxConnections
        ⟨g.heap.calls + 1, g.heap.calls :: g.heap.obtained, g.heap.freed⟩
      generalize initLoop ok call.iobufferSize 0 (List.replicate call.maxConnections zeroCtx)
        ⟨g.heap.calls + 1, g.heap.calls :: g.heap.obtained, g.heap.freed⟩ = out at houtcome ⊢
      obtain ⟨allset, contexts, heap⟩ := out
      obtain ⟨hobtained, hfreed, hkeeps, hcontexts⟩ := houtcome
      dsimp only at hobtained hfreed hkeeps hcontexts ⊢
      have hheap := hkeeps hwf'
      cases allset with
      | true =>
          rw [if_pos rfl]
          rw [hcontexts rfl] at hobtained ⊢
          exact .setUp hblock rfl rfl hheap hfreed hobtained
      | false =>
          rw [if_neg Bool.false_ne_true]
          obtain ⟨hsame, hcalls⟩ := freeLoop_obtained contexts heap
          have hgot : heap.obtained = ((ctxBlocks contexts).reverse ++ [g.heap.calls]) ++
              g.heap.obtained := by
            rw [hobtained, List.append_assoc]
            rfl
          have hback : ((freeLoop contexts heap).free g.heap.calls).freed =
              (g.heap.calls :: (ctxBlocks contexts).reverse) ++ heap.freed := by
            show g.heap.calls :: (freeLoop contexts heap).freed = _
            rw [freeLoop_freed]
            rfl
          obtain ⟨hwell, hreturned⟩ := @Heap.returned_of_freed g.heap heap
            ((freeLoop contexts heap).free g.heap.calls) _ _ hheap hgot hfreed hsame hcalls hback
            (List.perm_append_singleton _ _).symm
          exact .givenBack hblock rfl hwell hreturned

/-- The contexts that a call has set up are ready. -/
theorem context_setUp {g' : Globals} {size : ℤ} {n : ℕ} (hwf : g.heap.WellFormed)
    (harray : g'.sCtx = some ⟨g.heap.calls, readyCtxs size 0 (g.heap.calls + 1) n⟩)
    (hfreed : g'.heap.freed = g.heap.freed)
    (hobtained : g'.heap.obtained = (ctxBlocks (readyCtxs size 0 (g.heap.calls + 1) n)).reverse ++
      g.heap.calls :: g.heap.obtained) {i : ℕ} (hi : i < n) :
    ∃ ctx, g'.context i = some ctx ∧ CtxReady g'.heap size ctx := by
  have hnew : ∀ block, g.heap.calls ≤ block → block ∉ g'.heap.freed := by
    intro block hge hmem
    rw [hfreed] at hmem
    exact absurd (hwf.freed_lt block hmem) (by omega)
  have howned : ∀ block ∈ ctxBlocks (readyCtxs size 0 (g.heap.calls + 1) n),
      g.heap.calls ≤ block → g'.heap.Owned block := by
    intro block hmem hge
    refine ⟨?_, hnew block hge⟩
    rw [hobtained]
    exact List.mem_append_left _ (List.mem_reverse.mpr hmem)
  obtain ⟨hfirst, hsecond⟩ := @mem_ctxBlocks_readyCtxs size 0 (g.heap.calls + 1) n i hi
  refine ⟨readyCtx size (0 + i) (g.heap.calls + 1 + 2 * i), ?_,
    ctxReady_readyCtx (howned _ hfirst (by omega)) (howned _ hsecond (by omega))⟩
  unfold Globals.context
  rw [harray]
  dsimp only
  rw [if_neg (hnew _ le_rfl)]
  simp [readyCtxs, hi]

/-- **One call**: it is all or nothing unless the contexts of an earlier call are there and
the block for new ones is not to be had. -/
theorem allOrNothing_iff (hinv : InitInv g) :
    AllOrNothing ok g call ↔ ContextsAllocated ok g call := by
  have hfailed : ¬ (-1 : ℤ) = 0 := by decide
  cases hhost : call.serverHost with
  | none =>
      have hcall : g.smbgwProxyInit ok call = (-1, g) := by
        unfold Globals.smbgwProxyInit
        rw [hhost]
      refine iff_of_true ⟨?_, fun _ hsome => absurd hhost hsome, ?_⟩ fun hsome => absurd hhost hsome
      · rw [hcall]
        exact fun h => absurd h hfailed
      · rw [hcall]
        exact hinv.start
  | some host =>
      have hsome : call.serverHost ≠ none := by simp [hhost]
      have houtcome := @call_outcome ok g call host hinv.heap hhost
      generalize hcall : g.smbgwProxyInit ok call = out at houtcome
      unfold ContextsAllocated
      rw [imp_iff_right hsome]
      cases houtcome with
      | noContexts hblock hcnt hheap =>
          rw [hblock, or_iff_right Bool.false_ne_true, ← hcnt]
          constructor
          · intro h
            have hnothing := h.nothing
            rw [hcall] at hnothing
            exact (hnothing hfailed hsome).2
          · intro hzero
            refine ⟨?_, ?_, ?_⟩
            · rw [hcall]
              exact fun h => absurd h hfailed
            · rw [hcall]
              refine fun _ _ => ⟨⟨[], [], ?_, ?_, List.Perm.refl _, List.nodup_nil⟩, hzero⟩
              · rw [hheap, Heap.malloc_of_not_ok hblock]
                rfl
              · rw [hheap, Heap.malloc_of_not_ok hblock]
                rfl
            · rw [hcall]
              exact startsReady_of_none hzero
      | givenBack hblock hcnt hwf hreturned =>
          refine iff_of_true ⟨?_, ?_, ?_⟩ (Or.inl hblock)
          · rw [hcall]
            exact fun h => absurd h hfailed
          · rw [hcall]
            exact fun _ _ => ⟨hreturned, hcnt⟩
          · rw [hcall]
            exact startsReady_of_none hcnt
      | setUp hblock hcnt harray hwf hfreed hobtained =>
          have hready := fun i => @context_setUp g _ call.iobufferSize call.maxConnections hinv.heap
            harray hfreed hobtained i
          refine iff_of_true ⟨?_, ?_, ?_⟩ (Or.inl hblock)
          · rw [hcall]
            exact fun _ => ⟨hcnt, hready⟩
          · rw [hcall]
            exact fun h => absurd rfl h
          · rw [hcall]
            intro i hi
            rw [show _ = call.maxConnections from hcnt] at hi
            obtain ⟨ctx, hctx, hctxReady⟩ := hready i hi
            exact ⟨ctx, call.iobufferSize, hctx, hctxReady⟩

/-- A call that is all or nothing keeps the invariant. -/
theorem initInv_step (hinv : InitInv g) (h : AllOrNothing ok g call) :
    InitInv (initStep ok g call) := by
  refine ⟨?_, h.start⟩
  unfold initStep
  cases hhost : call.serverHost with
  | none =>
      unfold Globals.smbgwProxyInit
      rw [hhost]
      exact hinv.heap
  | some host =>
      have houtcome := @call_outcome ok g call host hinv.heap hhost
      generalize g.smbgwProxyInit ok call = out at houtcome
      cases houtcome with
      | noContexts hblock hcnt hheap =>
          show Heap.WellFormed _
          rw [hheap]
          exact Heap.wellFormed_malloc hinv.heap
      | givenBack hblock hcnt hwf hreturned => exact hwf
      | setUp hblock hcnt harray hwf hfreed hobtained => exact hwf

end Call

/-- **When initialisation is all or nothing**, over every sequence of calls: if and only if no
call that finds contexts in place fails to get the block for its own. -/
theorem all_or_nothing_iff (ok : ℕ → Bool) (calls : List InitCall) :
    Along (initStep ok) (AllOrNothing ok) Globals.init calls ↔
      Along (initStep ok) (ContextsAllocated ok) Globals.init calls :=
  along_iff InitInv (fun _ _ hinv => allOrNothing_iff hinv)
    (fun _ _ hinv h => initInv_step hinv h) initInv_init calls

/-- **A second call can leave a count without contexts**: it has no block for them, after a
first call that has set one up. -/
theorem not_all_or_nothing_second : ¬ ∀ (ok : ℕ → Bool) (calls : List InitCall),
    (∀ call ∈ calls, 1 ≤ call.maxConnections) →
      Along (initStep ok) (AllOrNothing ok) Globals.init calls := by
  intro h
  have hboth := h (fun k => k < 3) [⟨some [104], 445, 1, 16⟩, ⟨some [104], 445, 1, 16⟩] (by simp)
  have hzero := (hboth.2.1.nothing (by decide) (by decide)).2
  exact absurd hzero (by decide)

/-! ## The pool -/

/-- The contexts, over what is in the memory at their blocks. -/
theorem load_readyCtxs (mem : ℕ → ℤ → UInt8) (size : ℤ) (block n : ℕ) :
    (readyCtxs size 0 block n).map (CtxRecord.load mem) =
      smbgwProxyInit n size (fun i => mem (block + 2 * i)) fun i => mem (block + 2 * i + 1) := by
  unfold readyCtxs smbgwProxyInit
  rw [List.map_map]
  apply List.map_congr_left
  intro k _
  simp [CtxRecord.load, readyCtx, butilResetRing]

/-- **A call that succeeds leaves the pool that clients are handed to**, over what is in the
blocks of its rings. -/
theorem load_of_success {ok : ℕ → Bool} {g : Globals} {call : InitCall} {host : List UInt8}
    (hwf : g.heap.WellFormed) (hhost : call.serverHost = some host)
    (hresult : (g.smbgwProxyInit ok call).1 = 0) (mem : ℕ → ℤ → UInt8) :
    ∃ array, (g.smbgwProxyInit ok call).2.sCtx = some array ∧
      array.contexts.map (CtxRecord.load mem) =
        smbgwProxyInit call.maxConnections call.iobufferSize
          (fun i => mem (g.heap.calls + 1 + 2 * i))
          fun i => mem (g.heap.calls + 1 + 2 * i + 1) := by
  have hfailed : ¬ (-1 : ℤ) = 0 := by decide
  have houtcome := @call_outcome ok g call host hwf hhost
  generalize g.smbgwProxyInit ok call = out at houtcome hresult
  cases houtcome with
  | noContexts => exact absurd hresult hfailed
  | givenBack => exact absurd hresult hfailed
  | setUp hblock hcnt harray => exact ⟨_, harray, load_readyCtxs mem _ _ _⟩

end SmbProxy.Analysis
