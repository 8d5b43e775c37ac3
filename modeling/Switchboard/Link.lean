import Switchboard.Hub

/-!
# Links

A link joins one entity to the hub. Each of the three things a link does can be
made to take time and to fail, which is how a network misbehaves.
-/

namespace Switchboard

inductive Action
  | send
  | register
  | unregister
  deriving DecidableEq, Repr

/-- How an action misbehaves: the milliseconds it takes and the status it fails with. -/
structure Fault where
  delay : Nat := 0
  refusal : Option Status := none
  deriving DecidableEq, Repr

/-- An entity's link to the hub. -/
structure Link where
  address : Address
  closed : Bool := false
  onSend : Fault := {}
  onRegister : Fault := {}
  onUnregister : Fault := {}
  deriving DecidableEq, Repr

namespace Link

def fault (l : Link) : Action → Fault
  | .send => l.onSend
  | .register => l.onRegister
  | .unregister => l.onUnregister

def setFault (l : Link) (fault : Fault) : Action → Link
  | .send => { l with onSend := fault }
  | .register => { l with onRegister := fault }
  | .unregister => { l with onUnregister := fault }

def closedStatus : Status := ⟨.unavailable, "transport is closed"⟩

/-- Why the link refuses an action at present: the action fails, or the link is closed, which
does not keep listeners from being unregistered. -/
def refusal? (l : Link) (a : Action) : Option Status :=
  match (l.fault a).refusal with
  | some s => some s
  | none => if l.closed && a != .unregister then some closedStatus else none

end Link

end Switchboard
