import SmbProxy.Model.Handover

/-!
# What the hand-over of a client promises

A worker is inside its context from when it has seen a client until it has set the field
back to `INVALID_SOCKET`. The acceptor keeps out of a context while its worker is inside,
every installed client is closed by the one worker that holds it, and every server socket
by the worker that opened it, for the client it opened it for (`HandedOver`).
-/

set_option autoImplicit false

namespace SmbProxy.Interface

open SmbProxy.Library SmbProxy.Model

/-- Between seeing a client and setting `client_socket` back. -/
def inside : WorkerPc → Bool
  | .testSeen | .connect | .connecting | .testServer | .closeEarly | .clearEarly => true
  | .proxy | .testClient | .closeClient | .clearClient => true
  | .absent | .wait | .testServerEnd | .closeServer | .clearServer => false

/-- The context holds the client. -/
def Holds (s : Handover) (i : ℕ) (client : ℤ) : Prop :=
  (s.ctx i).clientSocket = client ∧ client ≠ invalidSocket

/-- The event closes the socket. -/
def closes (socket : ℤ) : SocketEvent → Bool
  | .close _ client => client = socket
  | .closeServer _ _ server => server = socket
  | .install _ _ => false
  | .openServer _ _ _ => false

/-- No overlap between the acceptor and the workers. -/
structure HandedOver (s : Handover) : Prop where
  untouched : ∀ i create, inside (s.worker i) = true →
    ((handoverStep s (.acceptor create)).ctx i).clientSocket = (s.ctx i).clientSocket ∧
      ((handoverStep s (.acceptor create)).ctx i).clientRing = (s.ctx i).clientRing ∧
      ((handoverStep s (.acceptor create)).ctx i).serverRing = (s.ctx i).serverRing
  held_once : ∀ i j client, Holds s i client → Holds s j client → i = j
  installed : ∀ i client, Holds s i client → .install i client ∈ s.log
  installed_once : ∀ i j client, .install i client ∈ s.log → .install j client ∈ s.log → i = j
  closed_once : ∀ i client, .install i client ∈ s.log → s.log.countP (closes client) ≤ 1
  closed_by : ∀ i client e, .install i client ∈ s.log → e ∈ s.log → closes client e = true →
    e = .close (.worker i) client
  let_go : ∀ i client input, Holds s i client → ¬ Holds (handoverStep s input) i client →
    .close (.worker i) client ∈ s.log
  server : ∀ i client server before, .closeServer i client server :: before <:+ s.log →
    .openServer i client server ∈ before

end SmbProxy.Interface
