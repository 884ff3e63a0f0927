import SmbProxy.Interface.StartCall

/-!
# What becomes of the sockets

A worker that is done with a connection closes its sockets and waits for the next client
(`Released`). A socket that is not closed (`openSockets`) is in a place where the code can
still reach it, but for a client whose thread could not be created (`createFails`).
-/

set_option autoImplicit false

namespace SmbProxy.Interface

open SmbProxy.Library SmbProxy.Model

/-- The socket has been closed. -/
def Closed (log : List SocketEvent) (socket : ℤ) : Prop := ∃ e ∈ log, closes socket e = true

instance (log : List SocketEvent) (socket : ℤ) : Decidable (Closed log socket) :=
  inferInstanceAs (Decidable (∃ e ∈ log, closes socket e = true))

/-- The worker waits for a client again, the sockets it had are closed, and its context does not
hold the client any more. -/
structure Released (s : Handover) (i : ℕ) (client : ℤ) (server : Option ℤ) : Prop where
  waits : s.worker i = .wait
  clientClosed : Closed s.log client
  serverClosed : ∀ socket ∈ server, socket ≠ invalidSocket → Closed s.log socket
  gone : (s.ctx i).clientSocket ≠ client

/-- The sockets that have been handed out and not been closed. -/
def openSockets (s : Handover) : List ℤ :=
  s.sockets.filter fun socket => decide (¬ Closed s.log socket)

/-- The step is a `pthread_create` that fails. -/
def createFails (s : Handover) : HandoverInput → Bool
  | .acceptor create =>
    match s.acceptor with
    | .start .createThread _ _ _ => create.result ≠ 0
    | _ => false
  | .arrive _ _ => false
  | .worker _ _ => false

/-- There is nothing to do: no client is being accepted, and no context has one. -/
structure AtRest (s : Handover) : Prop where
  acceptor : s.acceptor = .idle
  client : ∀ i < s.cnt, (s.ctx i).clientSocket = invalidSocket
  worker : ∀ i < s.cnt, s.worker i = .absent ∨ s.worker i = .wait

end SmbProxy.Interface
