import Switchboard.World.Operations

/-!
# Running tasks

A task whose turn comes is taken out of the table, does its job as far as it
can, and is back in the table if it has to wait. An engine that nobody holds any
more goes away, and inside the runtime it takes its listener with it.
-/

namespace Switchboard.World

/-- Answers a request with what was drafted; a draft that is not valid is not sent. -/
def answer (w : World) (t : TaskId) (s : ServerId) (request : Message) (draft : Draft)
    (payload : Option Payload) : World :=
  match w.servers.get? s with
  | none => w
  | some v =>
    let (id, w) := w.mint
    match draft.finish id payload with
    | .error _ => w
    | .ok m => (w.record (.answered s request m)).send t v.seat.link m (.answer s)

def handleNow (w : World) (t : TaskId) (s : ServerId) (h : Handler) (m : Message) : World :=
  let (draft, payload) := (h.run m).answer m.attributes
  w.answer t s m draft payload

def handle (w : World) (t : TaskId) (s : ServerId) (h : Handler) (m : Message) : World :=
  let w := w.record (.handled s h.key m)
  match h.delay with
  | 0 => w.handleNow t s h m
  | ms => w.sleep t ms (.handle s h m)

/-- A server's listener receives a message. -/
def dispatch (w : World) (t : TaskId) (s : ServerId) (v : Server) (m : Message) : World :=
  match v.judge w.wall m with
  | .ignored => w
  | .unserved draft => w.answer t s m draft none
  | .served h => w.handle t s h m

/-- Hands a message to a listener; an engine that is gone receives nothing. -/
def deliver (w : World) (t : TaskId) (l : Listener) (m : Message) : World :=
  match l with
  | .plain _ => w.record (.delivered l m)
  | .engine (.caller i) =>
    match w.callers.get? i with
    | none => w
    | some c => if c.seat.gone then w else (w.record (.delivered l m)).receive i c m
  | .engine (.server s) =>
    match w.servers.get? s with
    | none => w
    | some v => if v.seat.gone then w else (w.record (.delivered l m)).dispatch t s v m

def work (w : World) (t : TaskId) : Job → World
  | .deliver l m => w.deliver t l m
  | .handle s h m => w.handleNow t s h m
  | .deadline i id timeout => w.sleep t timeout.ceilMillis (.expire i id timeout)
  | .expire i id timeout => w.complete i id (.lapsed timeout)
  | .prepare u => w.prepare t u
  | .resume u => w.resume t u
  | .send l m after => w.sendNow t l m after
  | .register l source sink listener after => w.registerNow t l source sink listener after
  | .withdraw l sink e => w.unregister t l Address.any (some sink) (.engine e) .nothing
  | .unregister l source sink listener after => w.unregisterNow t l source sink listener after
  | .await c held => w.await t c held
  | .start o => w.start t o
  | .rest => w.record (.finished t (.ok ()))

/-! ## Engines that nobody holds -/

/-- Where the last hold on an engine is given up: inside the runtime, which takes on new tasks, or
outside of it, where there is nothing to carry one. -/
inductive Side
  | inside
  | outside
  deriving DecidableEq, Repr

def abandoned : Failure := .unavailable "invoker dropped before the call completed"

/-- Ends the calls that are pending when their caller goes away. -/
def abandon (w : World) (i : CallerId) : World :=
  match w.callers.get? i with
  | none => w
  | some c =>
    c.pending.foldl (fun w p => w.resolve p.call (.error abandoned))
      (w.modifyCaller i fun c => { c with pending := [] })

/-- Lets an engine go away: a caller's pending calls are abandoned. A listener that is still
registered is unregistered by a task of its own; outside the runtime it stays registered. -/
def remove (w : World) (e : EngineId) (p : Seat) (side : Side) : World :=
  let w := w.modifySeat (fun p => { p with gone := true }) e
  let w :=
    match e with
    | .caller i => w.abandon i
    | .server _ => w
  if !p.closed && p.cell == .registered && side == .inside then
    (w.spawn (.withdraw p.link p.sink e)).2
  else w

/-- Lets an engine go away if nobody holds it any more. -/
def release (w : World) (e : EngineId) (side : Side) : World :=
  match w.seat? e with
  | none => w
  | some p => if 0 < p.handles || p.gone || w.isHeld e then w else w.remove e p side

/-- Releases the engine that a job held, if the task has ended. -/
def releaseAfter (w : World) (t : TaskId) (held : Option EngineId) : World :=
  match held, w.tasks.get? t with
  | some e, none => w.release e .inside
  | _, _ => w

/-- A task's turn: it leaves the queue and does its job, unless it was cancelled. -/
def run (w : World) (t : TaskId) : World :=
  let w := { w with ready := w.ready.erase t }
  match w.tasks.get? t with
  | none => w
  | some task =>
    let w := { w with tasks := w.tasks.erase t }
    let w := if task.cancelled then w else w.work t task.job
    w.releaseAfter t task.job.holds

end Switchboard.World
