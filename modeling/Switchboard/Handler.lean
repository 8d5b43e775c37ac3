import Switchboard.Draft
import Switchboard.Wire

/-!
# Request handlers

A handler is given a request and ends in one of three ways. However it ends,
its ending makes exactly one answer: a failure becomes a status of the answer,
and a panic becomes an internal one.
-/

namespace Switchboard

inductive Ending
  /-- With a payload to answer, or with nothing to say. -/
  | returned (payload : Option Payload)
  | failed (failure : HandlerFailure)
  /-- With a panic, and the reason it gives, if it is a text. -/
  | panicked (reason : Option String)
  deriving DecidableEq

namespace Ending

def panicStatus (reason : Option String) : Status :=
  ⟨.internal, "handler panicked: " ++ reason.getD "unknown panic payload"⟩

def failure? : Ending → Option Status
  | returned _ => none
  | failed f => some f.toStatus
  | panicked reason => some (panicStatus reason)

def answer (request : Attributes) : Ending → Draft × Option Payload
  | returned payload => (Draft.answer request, payload)
  | failed f =>
    ((Draft.answer request).set (.commStatus f.toStatus.code f.toStatus.message), none)
  | panicked reason =>
    ((Draft.answer request).set
      (.commStatus (panicStatus reason).code (panicStatus reason).message), none)

end Ending

/-- A handler: the key that tells it from other handlers, how long it takes, and what it does. -/
structure Handler where
  key : Nat
  delay : Nat
  run : Message → Ending

/-- Two handlers are the same thing, not merely equal in what they do. -/
def Handler.same (a b : Handler) : Bool := a.key == b.key

/-- A value as a payload, or why it has no JSON form. -/
def Payload.encode (value : Except Json.Problem Json.Value) : Except Failure Payload :=
  match value with
  | .ok v => .ok (.ofJson v)
  | .error p => .error (.serialization p.text)

/-- A value of a shape from the bytes of a payload, whatever its format tag says. -/
def Payload.decode (shape : Json.Shape α) (p : Payload) : Except Failure α :=
  match shape.ofBytes p.data with
  | .ok a => .ok a
  | .error e => .error (.serialization e.text)

namespace Ending

/-- The ending of a typed function: the request's payload is read as JSON, whatever its format
tag says, and the result is written as JSON. A payload that cannot be read never reaches the
function. -/
def ofFunction (shape : Json.Shape α) (write : β → Except Json.Problem Json.Value)
    (f : α → Except HandlerFailure β) (request : Message) : Ending :=
  match shape.ofBytes request.payloadOrEmpty.data with
  | .error p => .failed (.status ⟨.invalidArgument, "malformed request payload: " ++ p.text⟩)
  | .ok a =>
    match f a with
    | .error e => .failed e
    | .ok b =>
      match Payload.encode (write b) with
      | .error e => .failed (.ofFailure e)
      | .ok p => .returned (some p)

end Ending

end Switchboard
