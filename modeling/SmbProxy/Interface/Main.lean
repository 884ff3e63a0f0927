import SmbProxy.Interface.CommandLine
import SmbProxy.Interface.Init
import SmbProxy.Interface.Process
import SmbProxy.Interface.UrlMeaning
import SmbProxy.Model.Main

/-!
# What `main` starts

`Launchable` says of a command line and an environment that `main` comes to its accept loop, and
`Launched` with what: the port to listen on and the server to connect to are those of the
command line, and there are contexts with buffers. `StartsAs` takes these contexts to the
process that runs on them.
-/

set_option autoImplicit false

namespace SmbProxy.Interface

open SmbProxy.Library SmbProxy.Model

/-- `main` comes to its accept loop with these variables. -/
def Serves (env : Environment) (args : List (List UInt8)) (s : Serving) : Prop :=
  ∃ fuel, main env fuel args = some (.inr s)

/-- The command line says what to do, and the system lets `main` do it. -/
structure Launchable (env : Environment) (args : List (List UInt8)) (d : Settings)
    (host : List UInt8) (port : UInt16) : Prop where
  reads : Reads args .default d
  url : d.serverUrl ≠ []
  means : ∃ scheme path,
    UrlMeans (fun _ => []) maxSmbUrl maxSmbUrl d.serverUrl scheme host port path
  memory : ∀ k < 1 + 2 * mainConnections, env.ok k = true
  listens : ∃ sock, env.listen d.localPort = .listening sock

/-- What `main` has set up for the command line. -/
structure Launched (env : Environment) (s : Serving) (d : Settings) (host : List UInt8)
    (port : UInt16) : Prop where
  localPort : s.localPort = d.localPort
  loglevel : s.loglevel = d.loglevel
  passthrough : s.passthrough = false
  listening : ∃ sock, env.listen d.localPort = .listening sock ∧ s.serverSocket = sock
  serverHost : s.globals.serverHost.Holds host ∧ 0 ∉ host
  serverPort : s.globals.serverPort = port
  count : s.globals.sCtxCnt = mainConnections
  contexts : ∀ i < mainConnections, ∃ ctx, s.globals.context i = some ctx ∧
    CtxReady s.globals.heap iobufferSize ctx

/-- The contexts of the process are those that `smbgw_proxy_init` has left, over what is in the
memory. -/
structure StartsAs (g : Globals) (mem : ℕ → ℤ → UInt8) (s : Process) : Prop where
  count : s.handover.cnt = g.sCtxCnt
  contexts : ∀ i < g.sCtxCnt, (g.context i).map (CtxRecord.load mem) = some (s.handover.ctx i)

end SmbProxy.Interface
