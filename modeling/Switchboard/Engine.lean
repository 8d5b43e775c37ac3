import Switchboard.Handler
import Switchboard.Hub
import Switchboard.Options

/-!
# Callers and servers

The two engines that sit on a link. A caller keeps the calls that wait for an
answer; a server keeps the handlers of its methods. Each registers one listener
of its own when it first needs one. What an engine makes of a message that its
listener receives is decided here; doing it takes tasks and time.
-/

namespace Switchboard

abbrev TaskId := Nat

abbrev CallId := Nat

/-- Where the registration of an engine's own listener stands. -/
inductive Cell
  /-- Not registered, and nobody tries to. -/
  | vacant
  /-- One task tries to register the listener, others wait for the result, first come first. -/
  | attempting (waiting : List TaskId)
  | registered
  deriving DecidableEq, Repr

/-- How an engine sits on its link. -/
structure Seat where
  link : LinkId
  /-- The entity that the engine acts for. -/
  entity : Address
  /-- The sink filter of its own listener. -/
  sink : Address
  /-- How many owners outside the engine hold it. -/
  handles : Nat := 1
  closed : Bool := false
  /-- Nobody holds the engine any more, so it is gone. -/
  gone : Bool := false
  cell : Cell := .vacant
  deriving DecidableEq, Repr

/-! ## Callers -/

structure PendingCall where
  /-- The id of its request, which the answer repeats. -/
  id : MessageId
  /-- Where the outcome is put. -/
  call : CallId
  /-- The task that ends the call at its deadline. -/
  deadline : TaskId
  deriving DecidableEq, Repr

/-- A caller: sends requests and awaits their answers. -/
structure Caller where
  seat : Seat
  pending : List PendingCall := []
  /-- Someone is told of messages that answer no call. -/
  reportsUnexpected : Bool
  deriving DecidableEq, Repr

namespace Caller

/-- A caller on a link of the given address; answers come back to the entity itself. -/
def onLink (link : LinkId) (address : Address) (reportsUnexpected : Bool) : Caller where
  seat := { link := link, entity := address.entity, sink := address.entity }
  reportsUnexpected := reportsUnexpected

def pending? (c : Caller) (id : MessageId) : Option PendingCall :=
  c.pending.find? (·.id == id)

def forget (c : Caller) (id : MessageId) : Caller :=
  { c with pending := c.pending.filter (·.id != id) }

def draft (c : Caller) (method : Address) (options : CallOptions) (id : MessageId) : Draft :=
  (((Draft.request c.seat.entity method options.ttlMillis).set (.priority options.priority)).set
    (.id id)).set? .token options.token

end Caller

namespace Message

/-- The request that a message answers; only valid responses answer one. -/
def answers? (m : Message) : Option MessageId :=
  if m.attributes.isResponse && m.attributes.isValid then m.attributes.requestId else none

/-- The outcome that an answer brings: its status if that is not success, else its payload. -/
def outcome (m : Message) : Except Failure Payload :=
  match m.attributes.commStatus with
  | some code =>
    if m.attributes.hasFailureStatus then
      .error (.remote ⟨code, m.attributes.commMessage.getD ""⟩)
    else .ok m.payloadOrEmpty
  | none => .ok m.payloadOrEmpty

end Message

/-! ## Servers -/

/-- A server: handles requests for the methods of its entity. -/
structure Server where
  seat : Seat
  handlers : List (Address × Handler) := []

/-- What a server does with a message. -/
inductive Verdict
  /-- No answer: the message is no request, is invalid or comes too late. -/
  | ignored
  /-- No handler serves the method; the answer says so. -/
  | unserved (answer : Draft)
  | served (handler : Handler)

namespace Server

/-- A server on a link of the given address; it listens to all resources of the entity. -/
def onLink (link : LinkId) (address : Address) : Server where
  seat :=
    { link := link
      entity := address.entity
      sink := address.entity.atResource Address.anyResource }

def handler? (s : Server) (method : Address) : Option Handler :=
  s.handlers.lookup method

def addHandler (s : Server) (method : Address) (h : Handler) : Server :=
  { s with handlers := (method, h) :: s.handlers }

def removeHandler (s : Server) (method : Address) : Server :=
  { s with handlers := s.handlers.filter fun e => e.1 != method }

/-- The server without the handler of a method, if that is the given one. -/
def removeSame (s : Server) (method : Address) (h : Handler) : Server :=
  if (s.handler? method).any h.same then s.removeHandler method else s

/-- A handler can serve a method only if it is a concrete method of the server's own entity. -/
def checkMethod (s : Server) (method : Address) : Except Failure Unit :=
  if !method.isMethod then
    .error (.invalidArgument (method.text ++ " is not an RPC method address"))
  else if !method.sameEntity s.seat.entity then
    .error (.invalidArgument "method address does not match the transport's source address")
  else .ok ()

def checkVacant (s : Server) (method : Address) : Except Failure Unit :=
  if s.seat.closed then .error (.unavailable "dispatcher is closed")
  else
    match s.checkMethod method with
    | .error e => .error e
    | .ok () =>
      if (s.handler? method).isSome then
        .error (.alreadyExists ("a handler is already registered for " ++ method.text))
      else .ok ()

/-- Removes a handler, which must be the very one that serves the method. -/
def unserve (s : Server) (method : Address) (h : Handler) : Except Failure Server :=
  match s.checkMethod method with
  | .error e => .error e
  | .ok () =>
    if (s.handler? method).any h.same then .ok (s.removeHandler method)
    else .error (.notFound ("handler is not registered for " ++ method.text))

def unservedAnswer (request : Attributes) (method : Address) : Draft :=
  (Draft.answer request).set (.commStatus .notFound ("no handler registered for " ++ method.text))

/-- What a server does with a message at the given time (milliseconds since 1970). -/
def judge (s : Server) (now : Nat) (m : Message) : Verdict :=
  if m.attributes.isRequest && m.attributes.isValid && !m.attributes.isExpired now then
    match m.attributes.sink.bind s.handler? with
    | some h => .served h
    | none => .unserved (unservedAnswer m.attributes (m.attributes.sink.getD Address.any))
  else .ignored

/-- A server ignores a valid request just when it has expired. -/
theorem judge_eq_ignored_iff (s : Server) (now : Nat) {m : Message}
    (request : m.attributes.isRequest = true) (valid : m.attributes.isValid = true) :
    s.judge now m = .ignored ↔ m.attributes.isExpired now = true := by
  rw [judge, request, valid]
  cases m.attributes.isExpired now with
  | true => simp
  | false => cases m.attributes.sink.bind s.handler? <;> simp

/-- What is served is a valid request in time for a method that has a handler. -/
theorem judge_eq_served {s : Server} {now : Nat} {m : Message} {h : Handler}
    (judged : s.judge now m = .served h) :
    m.attributes.isRequest = true ∧ m.attributes.isValid = true ∧
      m.attributes.isExpired now = false ∧ m.attributes.sink.bind s.handler? = some h := by
  simp only [judge] at judged
  split at judged
  · rename_i accepted
    simp only [Bool.and_eq_true, Bool.not_eq_true'] at accepted
    split at judged <;> cases judged
    exact ⟨accepted.1.1, accepted.1.2, accepted.2, by assumption⟩
  · cases judged

/-- What is not served is a valid request in time for a method without a handler. -/
theorem judge_eq_unserved {s : Server} {now : Nat} {m : Message} {draft : Draft}
    (judged : s.judge now m = .unserved draft) :
    m.attributes.isRequest = true ∧ m.attributes.isValid = true ∧
      m.attributes.isExpired now = false ∧ m.attributes.sink.bind s.handler? = none ∧
      draft = unservedAnswer m.attributes (m.attributes.sink.getD Address.any) := by
  simp only [judge] at judged
  split at judged
  · rename_i accepted
    simp only [Bool.and_eq_true, Bool.not_eq_true'] at accepted
    split at judged <;> cases judged
    exact ⟨accepted.1.1, accepted.1.2, accepted.2, by assumption, rfl⟩
  · cases judged

end Server

end Switchboard
