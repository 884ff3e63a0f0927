import SmbProxy.Interface.Main
import SmbProxy.Interface.Sockets
import SmbProxy.Model.Program

/-!
# What the program promises

The clients that come are taken by the contexts in the order in which they have come
(`ServedInOrder`), as long as the accept loop goes on, and it goes on while there is room
(`HasRoom`) and no `send` is hit by the signal (`NoSignal`). A client that comes to a full house
ends it, with all connections (`CutOff`). Whatever goes to a server goes to the one of the command line
(`ReachesServer`).
-/

set_option autoImplicit false

namespace SmbProxy.Interface

open SmbProxy.Library SmbProxy.Model

/-- The clients that contexts have taken, the latest first. -/
def installs (log : List SocketEvent) : List ℤ :=
  log.filterMap fun
    | .install _ client => some client
    | .close _ _ => none
    | .openServer _ _ _ => none
    | .closeServer _ _ _ => none

/-- Clients are taken in the order in which they have come, and none is left out but the one
that is being placed or that has ended the accept loop. -/
structure ServedInOrder (p : Program) : Prop where
  order : installs p.process.handover.log <:+ p.accepted
  waiting : p.accepted.length ≤ (installs p.process.handover.log).length + 1
  served : p.process.handover.acceptor = .idle → p.ended ≠ some (.loop .start) →
    p.accepted = installs p.process.handover.log

/-- No `send` is to a peer that has closed its end. -/
def NoSignal (p : Program) : ProgramInput → Prop
  | .sigpipe i => ¬ p.Sending i
  | _ => True

/-- The accept loop goes on: a client finds a context that is free, neither
`tcp_accept_connection` nor `pthread_create` fails, and no signal ends the program. -/
def HasRoom (p : Program) : ProgramInput → Prop
  | .accept event => p.process.handover.acceptor = .idle → (tcpAcceptConnection event).1 = 0 ∧
      ((tcpAcceptConnection event).2 ≠ invalidSocket →
        ∃ i < p.process.handover.cnt, ¬ Busy p.process.handover i)
  | .acceptor create => createFails p.process.handover (.acceptor create) = false
  | .connect _ _ => True
  | .worker _ => True
  | .loop _ _ => True
  | .sigpipe i => ¬ p.Sending i

instance (p : Program) : (input : ProgramInput) → Decidable (HasRoom p input)
  | .accept _ => inferInstanceAs (Decidable (_ → _ ∧ (_ → _)))
  | .acceptor _ => inferInstanceAs (Decidable (_ = _))
  | .connect _ _ => inferInstanceAs (Decidable True)
  | .worker _ => inferInstanceAs (Decidable True)
  | .loop _ _ => inferInstanceAs (Decidable True)
  | .sigpipe _ => inferInstanceAs (Decidable (¬ _))

/-- Every context has a client. -/
def StaysFull (p : Program) : Prop := ∀ i < p.process.handover.cnt, Busy p.process.handover i

instance (p : Program) : (input : ProgramInput) → Decidable (NoSignal p input)
  | .sigpipe _ => inferInstanceAs (Decidable (¬ _))
  | .accept _ => inferInstanceAs (Decidable True)
  | .acceptor _ => inferInstanceAs (Decidable True)
  | .connect _ _ => inferInstanceAs (Decidable True)
  | .worker _ => inferInstanceAs (Decidable True)
  | .loop _ _ => inferInstanceAs (Decidable True)

instance (p : Program) : Decidable (StaysFull p) :=
  inferInstanceAs (Decidable (∀ i < p.process.handover.cnt, Busy p.process.handover i))

/-- All contexts are busy, and no signal ends the program. -/
def HeldFull (p : Program) (input : ProgramInput) : Prop := StaysFull p ∧ NoSignal p input

instance (p : Program) (input : ProgramInput) : Decidable (HeldFull p input) :=
  inferInstanceAs (Decidable (_ ∧ _))

/-- A step of the accept loop. -/
def ofMain : ProgramInput → Bool
  | .acceptor _ => true
  | .accept _ => false
  | .connect _ _ => false
  | .worker _ => false
  | .loop _ _ => false
  | .sigpipe _ => false

/-- The accept loop has ended because it could not place the client, and every connection with
it: each context still holds the client that it has been serving. -/
structure CutOff (before p : Program) (client : ℤ) : Prop where
  ended : p.ended = some (.loop .start)
  closed : .close .acceptor client ∈ p.process.handover.log
  full : StaysFull p
  serving : ∀ i < p.process.handover.cnt,
    (p.process.handover.ctx i).clientSocket = (before.process.handover.ctx i).clientSocket

/-- A header that a step of the program completes is taken for the length that it says. -/
def ProgramLengths (p : Program) : ProgramInput → Prop
  | .loop i event => LengthsTaken p.process (.loop i event)
  | _ => True

instance (p : Program) : (input : ProgramInput) → Decidable (ProgramLengths p input)
  | .loop i event => inferInstanceAs (Decidable (LengthsTaken p.process (.loop i event)))
  | .accept _ => inferInstanceAs (Decidable True)
  | .acceptor _ => inferInstanceAs (Decidable True)
  | .connect _ _ => inferInstanceAs (Decidable True)
  | .worker _ => inferInstanceAs (Decidable True)
  | .sigpipe _ => inferInstanceAs (Decidable True)

/-- The `connect` is one to this host and this port, at the address that a lookup of these inputs
has found. -/
def DialsTo (inputs : List ProgramInput) (host : List UInt8) (port : UInt16) (d : Dial) : Prop :=
  d.port = port ∧ ∃ i event, .connect i event ∈ inputs ∧
    event.socket.map Nat.cast = some d.socket ∧ event.address host = some d.address

/-- Every `connect` is to this host and this port. A worker in the proxy loop has a server socket
with such a `connect`, and nothing has been sent to a server through any other one. -/
structure ReachesServer (inputs : List ProgramInput) (host : List UInt8) (port : UInt16)
    (p : Program) : Prop where
  dials : ∀ d ∈ p.dials, DialsTo inputs host port d
  serves : ∀ i, p.process.handover.worker i = .proxy →
    ∃ d ∈ p.dials, d.socket = (p.process.handover.ctx i).socket .server
  sends : ∀ client server, Paired p.process client server → (p.process.socket server).tx ≠ [] →
    ∃ d ∈ p.dials, d.socket = server

end SmbProxy.Interface
