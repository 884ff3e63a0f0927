import SmbProxy.Model.Passthrough

/-!
# What is promised about the mode of a connection

Every test of `passthrough` reads the flag that was requested for its client (`AsRequested`).
The acceptor stores a client before its flag; until it has stored the flag, a test reads what
the context had before (`FlagStored`).
-/

set_option autoImplicit false

namespace SmbProxy.Interface

open SmbProxy.Model

/-- The values that were read are those that were requested. -/
def AsRequested (s : Modes) : Prop := ∀ test ∈ s.tests, s.requested test.1 = some test.2

/-- A packet does not come between the stores of the client and of its flag, unless the context
already has the flag. -/
def FlagStored (s : Modes) : ModesInput → Prop
  | .step _ => True
  | .packet i => s.handover.worker i = .proxy → ∀ client passthrough,
    s.handover.acceptor = .start .setPassthrough client passthrough i →
      (s.handover.ctx i).passthrough = passthrough

end SmbProxy.Interface
