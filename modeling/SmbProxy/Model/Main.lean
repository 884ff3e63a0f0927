import SmbProxy.Model.Options
import SmbProxy.Model.Process
import SmbProxy.Model.Url

/-!
# `main`, up to its accept loop

main.cc:12-160, gwtcp.c:4-69. What `main` depends on besides its arguments is its environment:
which calls of `malloc` succeed, what the system calls of `tcp_listen_on_port` return on a port,
and what is in the local variables that are not initialised. No scheme is registered. The
log level is read by nothing but the log, and log lines are left out, as is what goes to
`stderr`.
-/

set_option autoImplicit false

namespace SmbProxy.Model

open SmbProxy.Library

/-! ## Listening -/

/-- Which call of `tcp_listen_on_port` fails first, if one does. A call that fails returns -1. -/
inductive ListenEvent
  | socketFailed
  | setsockoptFailed (sock : ℕ)
  | ioctlFailed (sock : ℕ)
  | bindFailed (sock : ℕ)
  | listenFailed (sock : ℕ)
  | listening (sock : ℕ)
  deriving DecidableEq

/-- What `tcp_listen_on_port` returns, what is behind `socket_ptr` afterwards, and the sockets it
has closed. -/
structure Listened where
  result : ℤ
  stored : ℤ
  closed : List ℤ

/-- `tcp_listen_on_port`. Where `listen` fails, the socket is stored although it is closed.
SOURCE: gwtcp.c:4-69 -/
def tcpListenOnPort (stored : ℤ) : ListenEvent → Listened
  | .socketFailed => ⟨invalidSocket, stored, []⟩
  | .setsockoptFailed _ => ⟨-1, stored, []⟩
  | .ioctlFailed _ => ⟨-1, stored, []⟩
  | .bindFailed sock => ⟨-1, stored, [(sock : ℤ)]⟩
  | .listenFailed sock => ⟨-1, sock, [(sock : ℤ)]⟩
  | .listening sock => ⟨0, sock, []⟩

/-! ## `main` -/

/-- What `main` finds, with the arrays and the variable it does not initialise. -/
structure Environment where
  ok : ℕ → Bool
  listen : UInt16 → ListenEvent
  serverHost : Buffer
  serverPath : Buffer
  schemestr : Buffer
  serverSocket : ℤ

/-- Where `main` returns before its accept loop, with -1 at each place. -/
inductive MainEnd
  | useage
  | badUrl
  | noContexts
  | notListening
  deriving DecidableEq

/-- The variables that the accept loop finds. -/
structure Serving where
  globals : Globals
  localPort : UInt16
  loglevel : ℤ
  passthrough : Bool
  serverSocket : ℤ

/-- The connections that `main` has room for.
SOURCE: main.cc:42 -/
def mainConnections : ℕ := 4

/-- What comes behind the option loops.
SOURCE: main.cc:114-160 -/
def setUp (env : Environment) (s : Options) : MainEnd ⊕ Serving :=
  if s.result ≠ 0 ∨ s.serverUrl.cells 0 = 0 then .inl .useage
  else
    let out := butilParseUrl (fun _ => []) (some (s.serverUrl.text maxSmbUrl))
      (some env.serverHost) maxSmbUrl (some env.serverPath) maxSmbUrl env.schemestr
    if out.result ≠ 0 then .inl .badUrl
    else
      let (result, globals) := Globals.init.smbgwProxyInit env.ok
        ⟨out.host.map fun host => host.text maxSmbUrl, out.port, mainConnections, iobufferSize⟩
      if result ≠ 0 then .inl .noContexts
      else
        let listened := tcpListenOnPort env.serverSocket (env.listen s.localPort)
        if listened.result ≠ 0 then .inl .notListening
        else
          .inr
            { globals := globals
              localPort := s.localPort
              loglevel := s.loglevel
              passthrough := s.passthrough
              serverSocket := listened.stored }

/-- `main` up to its accept loop, in at most `fuel` passes of the option loops.
SOURCE: main.cc:12-160 -/
def main (env : Environment) (fuel : ℕ) (args : List (List UInt8)) : Option (MainEnd ⊕ Serving) :=
  (loop optionPass fuel (Options.init args)).next.getRight?.map (setUp env)

end SmbProxy.Model
