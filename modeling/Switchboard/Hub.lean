import Switchboard.Message

/-!
# The hub

The hub is a table of registrations. A message goes to every registration whose
filters accept it, once for each, in the order of registration. A registration
is known by its filters and its listener: the same three are not registered
twice, whoever asks, and unregistering them does not look at the owner either.
-/

namespace Switchboard

abbrev LinkId := Nat

abbrev CallerId := Nat

abbrev ServerId := Nat

/-- An engine: a caller or a server. -/
inductive EngineId
  | caller (i : CallerId)
  | server (s : ServerId)
  deriving DecidableEq, Repr

inductive Listener
  /-- A listener that only takes note of what it receives. -/
  | plain (key : Nat)
  /-- The listener of an engine. -/
  | engine (e : EngineId)
  deriving DecidableEq, Repr

/-- A listener with its filters, and the link through which it was registered. -/
structure Registration where
  owner : LinkId
  source : Address
  sink : Option Address
  listener : Listener
  deriving DecidableEq, Repr

namespace Registration

/-- The message has a source that the source filter admits, and a sink that the sink filter
admits; without a sink filter, only messages without a sink are accepted. -/
def accepts (r : Registration) (m : Message) : Bool :=
  m.attributes.source.any r.source.admits &&
    match r.sink, m.attributes.sink with
    | none, none => true
    | some filter, some sink => filter.admits sink
    | _, _ => false

def is (r : Registration) (source : Address) (sink : Option Address) (listener : Listener) : Bool :=
  r.source == source && r.sink == sink && r.listener == listener

end Registration

/-- The registrations of a hub, oldest first. -/
structure Hub where
  registrations : List Registration := []
  deriving DecidableEq, Repr

namespace Hub

/-- The listeners that a message goes to, once for each registration that accepts it. -/
def recipients (h : Hub) (m : Message) : List Listener :=
  (h.registrations.filter (·.accepts m)).map (·.listener)

/-- Adds a registration, unless its filters and listener are registered already. -/
def register (h : Hub) (r : Registration) : Except Status Hub :=
  if h.registrations.any (·.is r.source r.sink r.listener) then
    .error ⟨.alreadyExists, "listener already registered for these filters"⟩
  else .ok ⟨h.registrations ++ [r]⟩

def unregister (h : Hub) (source : Address) (sink : Option Address) (listener : Listener) :
    Except Status Hub :=
  if h.registrations.any (·.is source sink listener) then
    .ok ⟨h.registrations.filter fun r => !r.is source sink listener⟩
  else .error ⟨.notFound, "no such listener registration"⟩

/-- Removes everything that was registered through a link. -/
def withdraw (h : Hub) (owner : LinkId) : Hub :=
  ⟨h.registrations.filter fun r => r.owner != owner⟩

def size (h : Hub) : Nat := h.registrations.length

end Hub

end Switchboard
