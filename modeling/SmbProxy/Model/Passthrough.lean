import SmbProxy.Model.Handover

/-!
# The mode of a connection beside the hand-over

smbgw.c:169 and smbgw.c:281: in the proxy loop a worker tests `passthrough` of its context for
every packet that is complete. A test comes at any time while the loop runs, between any two
steps of the threads.

`requested` is the flag that `smbgw_proxy_start` was called with for a client, and `tests` are
the clients for which the flag was tested with the values that were read, the latest first; the
code reads neither.
-/

set_option autoImplicit false

namespace SmbProxy.Model

/-- The threads, and what has been asked for and read. -/
structure Modes where
  handover : Handover
  requested : ℤ → Option Bool
  tests : List (ℤ × Bool)

/-- What happens next: a step of the hand-over, or a packet of the client of a context. -/
inductive ModesInput
  | step (input : HandoverInput)
  | packet (i : ℕ)

/-- The client of a call of `smbgw_proxy_start`, with its flag. -/
def Modes.request (s : Modes) : HandoverInput → ℤ → Option Bool
  | .arrive client passthrough =>
    if s.handover.acceptor = .idle ∧ s.handover.Fresh client then
      Function.update s.requested client (some passthrough)
    else s.requested
  | _ => s.requested

/-- The test of `passthrough`, for a worker in its proxy loop.
SOURCE: smbgw.c:169, smbgw.c:281 -/
def Modes.test (s : Modes) (i : ℕ) : Modes :=
  if s.handover.worker i = .proxy then
    { s with
      tests := ((s.handover.ctx i).clientSocket, (s.handover.ctx i).passthrough) :: s.tests }
  else s

def modesStep (s : Modes) : ModesInput → Modes
  | .step input =>
    { s with handover := handoverStep s.handover input, requested := s.request input }
  | .packet i => s.test i

/-- Before the first client. -/
def Modes.init (maxConnections : ℕ) (size : ℤ) (clientData serverData : ℕ → ℤ → UInt8) : Modes where
  handover := Handover.init maxConnections size clientData serverData
  requested := fun _ => none
  tests := []

end SmbProxy.Model
