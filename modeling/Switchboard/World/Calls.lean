import Switchboard.World

/-!
# Calls

A call is accepted, waits, and ends exactly once: whoever ends it takes it out
of the caller's pending calls, so whoever comes later finds nothing.
-/

namespace Switchboard.World

/-- Puts the outcome of a call in its place and wakes the task that waits for it. -/
def resolve (w : World) (c : CallId) (outcome : Except Failure Payload) : World :=
  match w.calls.get? c with
  | none => w
  | some call =>
    let w := { w with calls := w.calls.set c { call with outcome := some outcome, waiter := none } }
    match call.waiter with
    | some t => w.wake t
    | none => w

/-- Ends a call: takes it out of the caller's pending calls, cancels its deadline and puts the
outcome in its place. A call that is not pending any more is left alone. -/
def complete (w : World) (i : CallerId) (id : MessageId) (cause : Cause) : World :=
  let w := w.record (.ended i id cause)
  match (w.callers.get? i).bind (·.pending? id) with
  | none => w
  | some p => ((w.modifyCaller i (·.forget id)).cancel p.deadline).resolve p.call cause.outcome

/-- Gives a task the outcome of a call, or lets it wait for the outcome. -/
def await (w : World) (t : TaskId) (c : CallId) (held : Option CallerId) : World :=
  match w.calls.get? c with
  | none => w
  | some call =>
    match call.outcome with
    | some outcome => w.record (.resolved t outcome)
    | none =>
      { w with calls := w.calls.set c { call with waiter := some t } }.park t (.await c held)

/-- Tells of a message that answers no call, if there is someone to tell. -/
def reportUnexpected (w : World) (i : CallerId) (c : Caller) (m : Message) : World :=
  if c.reportsUnexpected then w.record (.unexpected i m) else w

/-- A caller's listener receives a message: an answer to a pending call ends that call, anything
else is unexpected. -/
def receive (w : World) (i : CallerId) (c : Caller) (m : Message) : World :=
  match m.answers? with
  | none => w.reportUnexpected i c m
  | some id =>
    if (c.pending? id).isSome then w.complete i id (.answered m)
    else (w.complete i id (.answered m)).reportUnexpected i c m

/-! ## New calls -/

/-- What a caller accepts: the id of the call, which is that of its request, and the place of its
outcome. -/
structure Accepted where
  id : MessageId
  call : CallId
  deriving DecidableEq, Repr

def pendingTwice (id : MessageId) : Failure :=
  .alreadyExists ("a call with correlation id " ++ id.text ++ " is already pending")

/-- Accepts a valid request: notes the call, and starts the tasks of its deadline and of its
request, in this order. -/
def accept (w : World) (i : CallerId) (request : Message) (id : MessageId) (timeout : Duration) :
    Accepted × World :=
  let (call, calls) := w.calls.insert { caller := i, id := id }
  let w := { w with calls := calls }
  let (deadline, w) := w.spawn (.deadline i id timeout)
  let w := w.modifyCaller i fun c => { c with pending := ⟨id, call, deadline⟩ :: c.pending }
  let (_, w) := w.spawn (.prepare (.request i id request))
  (⟨id, call⟩, w.record (.accepted i id timeout))

/-- Makes a call: a closed caller refuses, and so does one whose request would be invalid. The
request is sent later, by a task of its own. -/
def invoke (w : World) (i : CallerId) (method : Address) (payload : Option Payload)
    (options : CallOptions) : Except Failure Accepted × World :=
  match w.callers.get? i with
  | none => (.error (.unavailable "invoker is closed"), w)
  | some c =>
    if c.seat.closed then (.error (.unavailable "invoker is closed"), w)
    else
      let (id, w) := w.mint
      match (c.draft method options id).finish id payload with
      | .error e => (.error e, w)
      | .ok request =>
        if (c.pending? id).isSome then (.error (pendingTwice id), w)
        else
          let (accepted, w) := w.accept i request id options.timeout
          (.ok accepted, w)

/-- Makes a call and waits for its outcome; a payload without JSON form is refused before. -/
def call (w : World) (t : TaskId) (i : CallerId) (method : Address)
    (payload : Except Failure (Option Payload)) (options : CallOptions) : World :=
  match payload with
  | .error e => w.record (.resolved t (.error e))
  | .ok payload =>
    match w.invoke i method payload options with
    | (.error e, w) => w.record (.resolved t (.error e))
    | (.ok accepted, w) => w.await t accepted.call (some i)

end Switchboard.World
