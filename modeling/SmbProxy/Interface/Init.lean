import SmbProxy.Library.Machine
import SmbProxy.Model.Init

/-!
# Initialisation is all or nothing

A call that succeeds has set up as many contexts as it was asked for; one that fails leaves
none and has given back every block (`AllOrNothing`). Whatever has happened, every context
that `smbgw_proxy_start` may read is set up.
-/

set_option autoImplicit false

namespace SmbProxy.Interface

open SmbProxy.Library SmbProxy.Model

/-- An empty ring with its data. -/
structure RingReady (heap : Heap) (size : ℤ) (ring : RingRecord) : Prop where
  allocated : ∃ block, ring.data = some block ∧ heap.Owned block
  empty : ring.head = 0 ∧ ring.tail = 0 ∧ ring.count = 0
  size : ring.size = size

/-- No client, and both rings ready. -/
structure CtxReady (heap : Heap) (size : ℤ) (ctx : CtxRecord) : Prop where
  idle : ctx.clientSocket = invalidSocket ∧ ctx.serverSocket = invalidSocket
  clientRing : RingReady heap size ctx.clientRing
  serverRing : RingReady heap size ctx.serverRing

/-- Every context with an index below `s_ctx_cnt` is there and set up. -/
def StartsReady (g : Globals) : Prop :=
  ∀ i, i < g.sCtxCnt → ∃ ctx size, g.context i = some ctx ∧ CtxReady g.heap size ctx

/-- The call has done all of its work, or none of it is left. -/
structure AllOrNothing (ok : ℕ → Bool) (g : Globals) (call : InitCall) : Prop where
  all : (g.smbgwProxyInit ok call).1 = 0 →
    (g.smbgwProxyInit ok call).2.sCtxCnt = call.maxConnections ∧
      ∀ i, i < call.maxConnections → ∃ ctx, (g.smbgwProxyInit ok call).2.context i = some ctx ∧
        CtxReady (g.smbgwProxyInit ok call).2.heap call.iobufferSize ctx
  nothing : (g.smbgwProxyInit ok call).1 ≠ 0 → call.serverHost ≠ none →
    g.heap.Returned (g.smbgwProxyInit ok call).2.heap ∧ (g.smbgwProxyInit ok call).2.sCtxCnt = 0
  start : StartsReady (g.smbgwProxyInit ok call).2

/-- One call. -/
def initStep (ok : ℕ → Bool) (g : Globals) (call : InitCall) : Globals :=
  (g.smbgwProxyInit ok call).2

/-- The block for the contexts can be allocated, or there are no contexts before the call. -/
def ContextsAllocated (ok : ℕ → Bool) (g : Globals) (call : InitCall) : Prop :=
  call.serverHost ≠ none → ok g.heap.calls = true ∨ g.sCtxCnt = 0

end SmbProxy.Interface
