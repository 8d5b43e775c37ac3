import Switchboard.Engine
import Switchboard.Link
import Switchboard.Table

/-!
# The world

Everything that runs: one hub, the links, callers and servers on it, the tasks
that carry their work, and the time. A task runs until it has to wait and keeps
what it waits for as a `Job`. Ready tasks form a queue; sleeping tasks have a
timer. What happens is recorded as events.
-/

namespace Switchboard

/-- What a task does once an engine's listener is registered. -/
inductive Use
  /-- Sends the request of a call. -/
  | request (i : CallerId) (id : MessageId) (m : Message)
  /-- Reports that a handler serves a method. -/
  | serve (s : ServerId) (method : Address) (h : Handler)

def Use.engine : Use → EngineId
  | request i _ _ => .caller i
  | serve s _ _ => .server s

/-- How the refusal of a link is reported to the one who asked for the action. -/
inductive Report
  /-- As the link's status. -/
  | plain
  /-- As a message that could not be sent. -/
  | sending
  /-- As a failure of the link. -/
  | listening
  deriving DecidableEq, Repr

/-- Why an operation failed: the status of a link, or a failure. -/
inductive Refusal
  | status (s : Status)
  | failure (f : Failure)
  deriving DecidableEq, Repr

def Report.result : Report → Except Status Unit → Except Refusal Unit
  | _, .ok () => .ok ()
  | plain, .error s => .error (.status s)
  | sending, .error s => .error (.failure (.sendFailed s))
  | listening, .error s => .error (.failure (.transport s))

/-! ## Operations

What can be asked for that may have to wait, be it for a link or for an answer.
-/

/-- An operation that may have to wait. -/
inductive Operation
  /-- Sends a message through a link. -/
  | send (l : LinkId) (m : Message)
  /-- Registers a plain listener with a link. -/
  | register (l : LinkId) (source : Address) (sink : Option Address) (key : Nat) (r : Report)
  /-- Unregisters a plain listener. -/
  | unregister (l : LinkId) (source : Address) (sink : Option Address) (key : Nat) (r : Report)
  /-- Publishes on a topic of a link's entity. -/
  | publish (l : LinkId) (resource : UInt16) (payload : Option Payload) (options : SendOptions)
  /-- Notifies one destination on a topic of a link's entity. -/
  | notify (l : LinkId) (resource : UInt16) (destination : Address) (payload : Option Payload)
      (options : SendOptions)
  /-- Adds a handler to a server. -/
  | serve (s : ServerId) (method : Address) (h : Handler)
  /-- Closes an engine. -/
  | close (e : EngineId)
  /-- Makes a call and waits for its outcome. -/
  | call (i : CallerId) (method : Address) (payload : Except Failure (Option Payload))
      (options : CallOptions)
  /-- Waits for the outcome of a call. -/
  | await (c : CallId)
  /-- Lets some milliseconds pass. -/
  | rest (ms : Nat)

def Operation.engine? : Operation → Option EngineId
  | serve s _ _ => some (.server s)
  | close e => some e
  | call i _ _ _ => some (.caller i)
  | _ => none

/-! ## Jobs -/

/-- What follows when a message was sent or refused. -/
inductive AfterSend
  /-- A refusal ends the call. -/
  | request (i : CallerId) (id : MessageId)
  /-- Nothing; the server that answered is let go. -/
  | answer (s : ServerId)
  | report (r : Report)
  deriving DecidableEq, Repr

inductive AfterRegister
  /-- It was an engine's own listener; the others that wait for it are told. -/
  | use (u : Use)
  | report (r : Report)

inductive AfterUnregister
  /-- Nothing: the listener belonged to an engine that is gone. -/
  | nothing
  | report (r : Report)
  deriving DecidableEq, Repr

/-- What a task does when it runs next. -/
inductive Job
  /-- Hands a message to a listener. -/
  | deliver (l : Listener) (m : Message)
  /-- Ends a handler that has taken its time. -/
  | handle (s : ServerId) (h : Handler) (m : Message)
  /-- Arms the timer of a call. -/
  | deadline (i : CallerId) (id : MessageId) (timeout : Duration)
  /-- Ends a call whose time is up. -/
  | expire (i : CallerId) (id : MessageId) (timeout : Duration)
  /-- Asks for an engine's own listener. -/
  | prepare (u : Use)
  /-- Goes on once another task has registered the listener, or has failed to. -/
  | resume (u : Use)
  /-- Passes a message to the hub after the link's delay. -/
  | send (l : LinkId) (m : Message) (after : AfterSend)
  /-- Registers a listener after the link's delay. -/
  | register (l : LinkId) (source : Address) (sink : Option Address) (listener : Listener)
      (after : AfterRegister)
  /-- Begins to unregister the listener of an engine that is gone. -/
  | withdraw (l : LinkId) (sink : Address) (e : EngineId)
  /-- Unregisters a listener after the link's delay. -/
  | unregister (l : LinkId) (source : Address) (sink : Option Address) (listener : Listener)
      (after : AfterUnregister)
  /-- Waits for the outcome of a call; the caller may be held meanwhile. -/
  | await (c : CallId) (held : Option CallerId)
  /-- Starts an operation. -/
  | start (o : Operation)
  /-- Ends a rest. -/
  | rest

/-- The engine that a waiting task keeps from going away. -/
def Job.holds : Job → Option EngineId
  | deliver _ _ => none
  | handle s _ _ => some (.server s)
  | deadline i _ _ => some (.caller i)
  | expire i _ _ => some (.caller i)
  | prepare u => some u.engine
  | resume u => some u.engine
  | send _ _ (.request i _) => some (.caller i)
  | send _ _ (.answer s) => some (.server s)
  | send _ _ (.report _) => none
  | register _ _ _ _ (.use u) => some u.engine
  | register _ _ _ _ (.report _) => none
  | withdraw _ _ _ => none
  | unregister _ _ _ _ _ => none
  | await _ held => held.map .caller
  | start o => o.engine?
  | rest => none

/-- A task that waits or is ready. A cancelled task does nothing more; when its turn comes it is
removed. -/
structure Task where
  job : Job
  cancelled : Bool := false

structure Timer where
  due : Nat
  task : TaskId
  deriving DecidableEq, Repr

/-- The place where a call's outcome is put, and the task that waits for it. -/
structure Call where
  caller : CallerId
  id : MessageId
  outcome : Option (Except Failure Payload) := none
  waiter : Option TaskId := none

inductive Cause
  /-- A valid response to its request. -/
  | answered (m : Message)
  /-- Its deadline. -/
  | lapsed (timeout : Duration)
  /-- A link that refuses its request, or the listener for its answer. -/
  | refused (s : Status)
  deriving DecidableEq

def Cause.outcome : Cause → Except Failure Payload
  | answered m => m.outcome
  | lapsed timeout => .error (.deadlineExceeded timeout)
  | refused s => .error (.sendFailed s)

/-- What can be seen of a run. -/
inductive Event
  /-- A message was passed to a link. -/
  | sent (l : LinkId) (m : Message)
  /-- A listener received a message. -/
  | delivered (l : Listener) (m : Message)
  /-- A caller was given a message that answers none of its calls. -/
  | unexpected (i : CallerId) (m : Message)
  /-- A request entered a handler. -/
  | handled (s : ServerId) (handler : Nat) (m : Message)
  /-- A server answered a request. -/
  | answered (s : ServerId) (request response : Message)
  /-- An attempt to register an engine's listener came to its end. -/
  | attempted (e : EngineId) (result : Except Status Unit)
  /-- A caller accepted a call. -/
  | accepted (i : CallerId) (id : MessageId) (timeout : Duration)
  /-- Something happened that ends a call, if the call had not ended before. -/
  | ended (i : CallerId) (id : MessageId) (cause : Cause)
  /-- A task learned the outcome of the call that it waited for. -/
  | resolved (t : TaskId) (outcome : Except Failure Payload)
  /-- An operation ended. -/
  | finished (t : TaskId) (result : Except Refusal Unit)

/-! ## The state -/

/-- The state of everything that runs. -/
structure World where
  /-- Milliseconds that have passed; timers count in them. -/
  now : Nat := 0
  /-- The calendar's clock, in milliseconds since 1970; expiry is judged by it. -/
  wall : Nat
  ids : MessageId.Source
  hub : Hub := {}
  links : Table Link := {}
  callers : Table Caller := {}
  servers : Table Server := {}
  calls : Table Call := {}
  tasks : Table Task := {}
  /-- Tasks that can run, in the order in which they will. -/
  ready : List TaskId := []
  /-- Timers in the order in which they were armed. -/
  timers : List Timer := []
  /-- Events with the time at which they happened, the latest first. -/
  events : List (Nat × Event) := []

namespace World

def record (w : World) (e : Event) : World := { w with events := (w.now, e) :: w.events }

/-- The events since there were `n` of them, in the order in which they happened. -/
def eventsSince (w : World) (n : Nat) : List Event :=
  ((w.events.take (w.events.length - n)).map (·.2)).reverse

def result? (w : World) (t : TaskId) : Option (Except Refusal Unit) :=
  w.events.findSome? fun
    | (_, .finished t' r) => if t' = t then some r else none
    | _ => none

def resolution? (w : World) (t : TaskId) : Option (Except Failure Payload) :=
  w.events.findSome? fun
    | (_, .resolved t' r) => if t' = t then some r else none
    | _ => none

def mint (w : World) : MessageId × World :=
  (w.ids.next.1, { w with ids := w.ids.next.2 })

/-- Puts a task at the end of the queue, unless it is in it. -/
def wake (w : World) (t : TaskId) : World :=
  if w.ready.contains t then w else { w with ready := w.ready ++ [t] }

def wakeAll (w : World) (ts : List TaskId) : World := ts.foldl wake w

def spawn (w : World) (job : Job) : TaskId × World :=
  let (t, tasks) := w.tasks.insert ⟨job, false⟩
  (t, { w with tasks := tasks, ready := w.ready ++ [t] })

/-- Lets a task wait to be woken. -/
def park (w : World) (t : TaskId) (job : Job) : World :=
  { w with tasks := w.tasks.set t ⟨job, false⟩ }

/-- The longest time that a timer runs, in milliseconds: thirty years of 365 days. A timer that is
set for longer goes off after this time all the same. -/
def longestSleep : Nat := 30 * 365 * 24 * 60 * 60 * 1000

def sleep (w : World) (t : TaskId) (ms : Nat) (job : Job) : World :=
  { w.park t job with timers := w.timers ++ [⟨w.now + min ms longestSleep, t⟩] }

/-- Cancels a task: its timer is disarmed, and it is removed when its turn comes. -/
def cancel (w : World) (t : TaskId) : World :=
  match w.tasks.get? t with
  | none => w
  | some task =>
    { w with
      tasks := w.tasks.set t { task with cancelled := true }
      timers := w.timers.filter (·.task != t) }.wake t

/-- Some task keeps the engine from going away. -/
def isHeld (w : World) (e : EngineId) : Bool := w.tasks.any fun t => t.job.holds == some e

def seat? (w : World) : EngineId → Option Seat
  | .caller i => (w.callers.get? i).map (·.seat)
  | .server s => (w.servers.get? s).map (·.seat)

def cell? (w : World) (e : EngineId) : Option Cell := (w.seat? e).map (·.cell)

/-- Someone outside owns the engine, so that it can be asked for something. -/
def isOwned (w : World) (e : EngineId) : Bool := (w.seat? e).any (0 < ·.handles)

def modifySeat (w : World) (f : Seat → Seat) : EngineId → World
  | .caller i => { w with callers := w.callers.modify i fun c => { c with seat := f c.seat } }
  | .server s => { w with servers := w.servers.modify s fun v => { v with seat := f v.seat } }

def modifyCaller (w : World) (i : CallerId) (f : Caller → Caller) : World :=
  { w with callers := w.callers.modify i f }

def modifyServer (w : World) (s : ServerId) (f : Server → Server) : World :=
  { w with servers := w.servers.modify s f }

end World

end Switchboard
