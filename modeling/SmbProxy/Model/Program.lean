import SmbProxy.Model.Main

/-!
# The program with its accept loop

main.cc:162-184, gwtcp.c:138-282, smbgw.c:71. The accept loop calls `tcp_accept_connection` and
`smbgw_proxy_start` in turn, beside the workers of the contexts that `main` has set up. When
the loop has ended, `main` returns and every thread ends with it. `tcp_connect` is here with its system
calls, and with the host and the port that `smbgw_proxy_init` has kept.

`tcp_write` calls `send` without flags, and nobody ignores `SIGPIPE`. So a `send` to a peer that
has closed its end does not return to the loop of its worker: it ends the whole program.

`accepted` are the clients that `tcp_accept_connection` has handed out and `dials` the
calls of `connect`, the latest first; the code reads neither.
-/

set_option autoImplicit false

namespace SmbProxy.Model

open SmbProxy.Library

/-! ## `tcp_connect` -/

/-- What `connect` does with a socket that does not block. -/
inductive ConnectCall
  | connected
  | wouldBlock
  | inProgress
  | failed
  deriving DecidableEq

/-- The system calls of one `tcp_connect`: the socket, if there is one, whether `ioctl` succeeds,
what `gethostbyname` and `inet_pton` make of a host, and `connect`. An address is the bytes of
`sin_addr`. -/
structure DialEvent where
  socket : Option ℕ
  ioctl : Bool
  gethostbyname : List UInt8 → Option (List UInt8)
  inetPton : List UInt8 → Option (List UInt8)
  connect : ConnectCall

/-- A call of `connect`. -/
structure Dial where
  socket : ℤ
  address : List UInt8
  port : UInt16
  deriving DecidableEq

/-- What `tcp_connect` returns, what is behind `socket_ptr` afterwards, the socket it has opened,
the sockets it has closed, and the `connect` it has called. -/
structure Dialled where
  result : ℤ
  stored : ℤ
  opened : Option ℤ
  closed : List ℤ
  dial : Option Dial

/-- Whether the host has a character that is no digit and no dot.
SOURCE: gwtcp.c:172-179 -/
def isName (host : List UInt8) : Bool := host.any fun ch => (ch < 48 || 57 < ch) && ch != 46

/-- The address of the host.
SOURCE: gwtcp.c:180-200 -/
def DialEvent.address (event : DialEvent) (host : List UInt8) : Option (List UInt8) :=
  if isName host then event.gethostbyname host else event.inetPton host

/-- `tcp_connect`.
SOURCE: gwtcp.c:138-230 -/
def tcpConnect (host : List UInt8) (port : UInt16) (event : DialEvent) : Dialled :=
  match event.socket with
  | none => ⟨-1, invalidSocket, none, [], none⟩
  | some sock =>
    if event.ioctl = false then ⟨-1, invalidSocket, some sock, [(sock : ℤ)], none⟩
    else
      match event.address host with
      | none => ⟨-1, invalidSocket, some sock, [(sock : ℤ)], none⟩
      | some address =>
        match event.connect with
        | .failed => ⟨-1, invalidSocket, some sock, [(sock : ℤ)], some ⟨sock, address, port⟩⟩
        | .connected => ⟨0, sock, some sock, [], some ⟨sock, address, port⟩⟩
        | .wouldBlock => ⟨0, sock, some sock, [], some ⟨sock, address, port⟩⟩
        | .inProgress => ⟨0, sock, some sock, [], some ⟨sock, address, port⟩⟩

/-- The same, as the hand-over knows it. -/
def Dialled.event (d : Dialled) : ConnectEvent :=
  match d.opened with
  | none => .noSocket
  | some sock => if d.result = 0 then .connected sock else .refused sock

/-! ## The accept loop -/

/-- What `smbgw_proxy_start` returns, if this instruction returns from it.
SOURCE: smbgw.c:448-473 -/
def startResult (create : ThreadCreate) : StartPc → Option ℤ
  | .createThread => if create.result ≠ 0 then some (-1) else none
  | .setPassthrough => some 0
  | .closeClient => some (-1)
  | _ => none

/-- What has ended the program: the result of a call in the accept loop, or the signal. -/
inductive ProgramEnd
  | loop (call : LoopEnd)
  | sigpipe
  deriving DecidableEq

/-- All threads, and what has ended the program, if anything has. -/
structure Program where
  process : Process
  accepted : List ℤ
  dials : List Dial
  ended : Option ProgramEnd

/-- The program at the beginning of its accept loop. -/
def Program.init (process : Process) : Program := ⟨process, [], [], none⟩

/-- The proxy loop is in `tcp_write`. -/
def Pc.writing : Pc → Bool
  | .write _ _ _ _ => true
  | _ => false

/-- `tcp_accept_connection` returns.
SOURCE: main.cc:166-173 -/
def Program.accept (packet : Bool → (ℤ → UInt8) → ℤ → ℤ) (p : Program) (passthrough : Bool)
    (event : AcceptEvent) : Program :=
  let (result, client) := tcpAcceptConnection event
  if result ≠ 0 then { p with ended := some (.loop .accept) }
  else if client ≠ invalidSocket ∧ p.process.handover.Fresh client then
    { p with
      process := processStep packet p.process (.arrive client passthrough)
      accepted := client :: p.accepted }
  else p

/-- The next instruction of `smbgw_proxy_start`. Where it returns, the accept loop tests its
result.
SOURCE: main.cc:173-181 -/
def Program.start (packet : Bool → (ℤ → UInt8) → ℤ → ℤ) (p : Program) (pc : StartPc)
    (create : ThreadCreate) : Program :=
  { p with
    process := processStep packet p.process (.acceptor create)
    ended :=
      match startResult create pc with
      | none => none
      | some result => if result ≠ 0 then some (.loop .start) else none }

/-- The worker that is in `tcp_connect` returns from it.
SOURCE: smbgw.c:71 -/
def Program.connect (packet : Bool → (ℤ → UInt8) → ℤ → ℤ) (p : Program) (i : ℕ) (d : Dialled) :
    Program :=
  if p.process.handover.worker i = .connecting ∧ ∀ sock ∈ d.opened, p.process.handover.Fresh sock then
    { p with
      process := processStep packet p.process (.worker i (.connect d.event))
      dials := d.dial.toList ++ p.dials }
  else p

/-- The worker is in `tcp_write`.
SOURCE: smbgw.c:186, smbgw.c:297 -/
def Program.Sending (p : Program) (i : ℕ) : Prop :=
  p.process.handover.worker i = .proxy ∧ (p.process.conn i).pc.writing = true

instance (p : Program) (i : ℕ) : Decidable (p.Sending i) := inferInstanceAs (Decidable (_ ∧ _))

/-- What happens next. At `sigpipe` the `send` of a worker finds that its peer has closed. -/
inductive ProgramInput
  | accept (event : AcceptEvent)
  | acceptor (create : ThreadCreate)
  | connect (i : ℕ) (event : DialEvent)
  | worker (i : ℕ)
  | loop (i : ℕ) (event : LoopEvent)
  | sigpipe (i : ℕ)

/-- One step of the program on what `main` has set up. It does nothing once the program has
ended. -/
def programStep (packet : Bool → (ℤ → UInt8) → ℤ → ℤ) (v : Serving) (p : Program)
    (input : ProgramInput) : Program :=
  if p.ended = none then
    match input with
    | .accept event =>
      match p.process.handover.acceptor with
      | .idle => p.accept packet v.passthrough event
      | .start _ _ _ _ => p
    | .acceptor create =>
      match p.process.handover.acceptor with
      | .idle => p
      | .start pc _ _ _ => p.start packet pc create
    | .connect i event =>
      p.connect packet i
        (tcpConnect (v.globals.serverHost.text maxSmbUrl) v.globals.serverPort event)
    | .worker i => { p with process := processStep packet p.process (.worker i .run) }
    | .loop i event => { p with process := processStep packet p.process (.loop i event) }
    | .sigpipe i => if p.Sending i then { p with ended := some .sigpipe } else p
  else p

end SmbProxy.Model
