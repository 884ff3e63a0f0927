import SmbProxy.Interface.Handover

/-!
# What a call of `smbgw_proxy_start` promises

The contexts may lose their clients while the call looks through them. All the same a client
that is refused would have been refused if the call had been made at once, when it began,
and one that is placed is in front of no context that was free then (`AsIfAtOnce`). A client that
has been placed is `TakenUp` by the worker of its context, if there is one.
-/

set_option autoImplicit false

namespace SmbProxy.Interface

open SmbProxy.Library SmbProxy.Model

/-- The context has a client. -/
def Busy (s : Handover) (i : ℕ) : Prop := (s.ctx i).clientSocket ≠ invalidSocket

instance (s : Handover) (i : ℕ) : Decidable (Busy s i) := inferInstanceAs (Decidable (_ ≠ _))

/-- The outcome of the call for a client, in terms of the contexts as they were `before` it. -/
structure AsIfAtOnce (before after : Handover) (client : ℤ) : Prop where
  refused : .close .acceptor client ∈ after.log → ∀ j < before.cnt, Busy before j
  placed : ∀ i, .install i client ∈ after.log → i < before.cnt ∧ ∀ j < i, Busy before j

/-- The call for a client has ended with the client in a context or closed. -/
def Settled (s : Handover) (client : ℤ) : Prop :=
  (∃ i, .install i client ∈ s.log) ∨ .close .acceptor client ∈ s.log

/-- A step of the acceptor. -/
def byAcceptor : HandoverInput → Bool
  | .acceptor _ => true
  | _ => false

/-- A step of the worker of a context. -/
def byWorker (i : ℕ) : HandoverInput → Bool
  | .worker j _ => j = i
  | _ => false

/-- The worker is at work for the client. -/
def TakenUp (s : Handover) (i : ℕ) (client : ℤ) : Prop :=
  inside (s.worker i) = true ∧ s.seen i = client

/-- A `pthread_create` that fails leaves no id of a thread behind. -/
def CreatesTidily : HandoverInput → Prop
  | .acceptor create => create.result ≠ 0 → create.thread = 0
  | _ => True

end SmbProxy.Interface
