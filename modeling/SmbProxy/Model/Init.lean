import SmbProxy.Library.CString
import SmbProxy.Library.Heap
import SmbProxy.Model.Pool

/-!
# Setting up the contexts

smbgw.c:347-426, with every `malloc` that may fail. The contexts are here as `malloc` and
`memset` leave them: a ring has the block its data is in, if any. `CtxRecord.load` reads a
context over the memory, as `Model.Pool` has it. Log lines are left out.
-/

set_option autoImplicit false

namespace SmbProxy.Model

open SmbProxy.Library

/-- `MAX_SMB_URL`.
SOURCE: smbgw.h:10 -/
def maxSmbUrl : ℕ := 256

/-- `ioring_t` with the block that `data` points to, `none` for `NULL`. -/
structure RingRecord where
  head : ℤ
  tail : ℤ
  count : ℤ
  size : ℤ
  data : Option ℕ
  deriving DecidableEq

/-- `butil_reset_ring`.
SOURCE: butil.c:109-118 -/
def RingRecord.reset (ring : RingRecord) : RingRecord :=
  { ring with head := 0, tail := 0, count := 0 }

/-- `smb_ctx_t` in the block that `s_ctx` points to.
SOURCE: smbcontext.h:10-23 -/
structure CtxRecord where
  clientSocket : ℤ
  serverSocket : ℤ
  clientRing : RingRecord
  serverRing : RingRecord
  passthrough : Bool
  ordinal : ℤ
  thread : ℕ
  deriving DecidableEq

/-- A context after the `memset`. -/
def zeroCtx : CtxRecord where
  clientSocket := 0
  serverSocket := 0
  clientRing := ⟨0, 0, 0, 0, none⟩
  serverRing := ⟨0, 0, 0, 0, none⟩
  passthrough := false
  ordinal := 0
  thread := 0

/-- What `s_ctx` points to. -/
structure CtxArray where
  block : ℕ
  contexts : List CtxRecord

/-- The globals of smbgw.c that the set-up writes, and the heap.
SOURCE: smbgw.c:8-12 -/
structure Globals where
  serverHost : Buffer
  serverPort : UInt16
  sCtx : Option CtxArray
  sCtxCnt : ℕ
  heap : Heap

/-- The arguments of one `smbgw_proxy_init`; `none` is a null pointer. -/
structure InitCall where
  serverHost : Option (List UInt8)
  serverPort : UInt16
  maxConnections : ℕ
  iobufferSize : ℤ

/-- The loop that sets the contexts up: whether all are, and the contexts and the heap.
SOURCE: smbgw.c:375-400 -/
def initLoop (ok : ℕ → Bool) (size : ℤ) :
    ℕ → List CtxRecord → Heap → Bool × List CtxRecord × Heap
  | _, [], heap => (true, [], heap)
  | i, ctx :: rest, heap =>
    let ctx :=
      { ctx with ordinal := i, clientSocket := invalidSocket, serverSocket := invalidSocket }
    let (data, heap) := heap.malloc ok
    let ctx := { ctx with clientRing := { ctx.clientRing with size := size, data := data } }
    if data = none then (false, ctx :: rest, heap)
    else
      let ctx := { ctx with clientRing := ctx.clientRing.reset }
      let (data, heap) := heap.malloc ok
      let ctx := { ctx with serverRing := { ctx.serverRing with size := size, data := data } }
      if data = none then (false, ctx :: rest, heap)
      else
        let ctx := { ctx with serverRing := ctx.serverRing.reset }
        let (allset, rest, heap) := initLoop ok size (i + 1) rest heap
        (allset, ctx :: rest, heap)

/-- `if (data) free(data)`. -/
def freeData : Option ℕ → Heap → Heap
  | some block, heap => heap.free block
  | none, heap => heap

/-- The clean-up loop.
SOURCE: smbgw.c:404-415 -/
def freeLoop : List CtxRecord → Heap → Heap
  | [], heap => heap
  | ctx :: rest, heap => freeLoop rest (freeData ctx.serverRing.data (freeData ctx.clientRing.data heap))

/-- `smbgw_proxy_init`: its return value, and the globals.
SOURCE: smbgw.c:347-426 -/
def Globals.smbgwProxyInit (ok : ℕ → Bool) (g : Globals) (call : InitCall) : ℤ × Globals :=
  match call.serverHost with
  | none => (-1, g)
  | some host =>
    let serverHost := (g.serverHost.strncpy host (maxSmbUrl - 1)).store (maxSmbUrl - 1) 0
    let (block, heap) := g.heap.malloc ok
    match block with
    | none =>
      (-1, { g with
        serverHost := serverHost, serverPort := call.serverPort, sCtx := none, heap := heap })
    | some block =>
      let (allset, contexts, heap) :=
        initLoop ok call.iobufferSize 0 (List.replicate call.maxConnections zeroCtx) heap
      if allset then
        (0,
          { serverHost := serverHost
            serverPort := call.serverPort
            sCtx := some ⟨block, contexts⟩
            sCtxCnt := call.maxConnections
            heap := heap })
      else
        -- the pointer is left as it is, to a block that has been freed
        (-1,
          { serverHost := serverHost
            serverPort := call.serverPort
            sCtx := some ⟨block, contexts⟩
            sCtxCnt := 0
            heap := (freeLoop contexts heap).free block })

/-- The globals before the first call. -/
def Globals.init : Globals where
  serverHost := ⟨fun _ => 0, []⟩
  serverPort := 0
  sCtx := none
  sCtxCnt := 0
  heap := Heap.init

/-- `s_ctx[i]`, if there is such a context to read: `smbgw_proxy_start` reads those with an
index below `s_ctx_cnt`.
SOURCE: smbgw.c:442-444 -/
def Globals.context (g : Globals) (i : ℕ) : Option CtxRecord :=
  match g.sCtx with
  | none => none
  | some array => if array.block ∈ g.heap.freed then none else array.contexts[i]?

/-- The context over the memory. -/
def CtxRecord.load (mem : ℕ → ℤ → UInt8) (ctx : CtxRecord) : SmbCtx :=
  let ring := fun (r : RingRecord) => ⟨r.head, r.tail, r.count, r.size, mem (r.data.getD 0)⟩
  { clientSocket := ctx.clientSocket
    serverSocket := ctx.serverSocket
    clientRing := ring ctx.clientRing
    serverRing := ring ctx.serverRing
    passthrough := ctx.passthrough
    ordinal := ctx.ordinal
    thread := ctx.thread }

end SmbProxy.Model
