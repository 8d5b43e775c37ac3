import Switchboard.World.Calls

/-!
# Sending and listening

What tasks do with links: messages are sent, listeners are registered and
unregistered. Each takes the link's delay and then succeeds or is refused, and
the task goes on with what the action was for.
-/

namespace Switchboard.World

/-- Starts one delivery for every registration that accepts the message. -/
def broadcast (w : World) (m : Message) : World :=
  (w.hub.recipients m).foldl (fun w l => (w.spawn (.deliver l m)).2) w

def afterSend (w : World) (t : TaskId) (after : AfterSend) (result : Except Status Unit) : World :=
  match after, result with
  | .request _ _, .ok () => w
  | .request i id, .error s => w.complete i id (.refused s)
  | .answer _, _ => w
  | .report r, result => w.record (.finished t (r.result result))

/-- Why a link refuses an action at present; a link that does not exist is closed. -/
def refusal? (w : World) (l : LinkId) (a : Action) : Option Status :=
  match w.links.get? l with
  | none => some Link.closedStatus
  | some link => link.refusal? a

def delay (w : World) (l : LinkId) (a : Action) : Nat :=
  match w.links.get? l with
  | none => 0
  | some link => (link.fault a).delay

/-- Passes a message to the hub, unless the link refuses. -/
def sendNow (w : World) (t : TaskId) (l : LinkId) (m : Message) (after : AfterSend) : World :=
  match w.refusal? l .send with
  | some s => w.afterSend t after (.error s)
  | none => (w.broadcast m).afterSend t after (.ok ())

def send (w : World) (t : TaskId) (l : LinkId) (m : Message) (after : AfterSend) : World :=
  let w := w.record (.sent l m)
  match w.delay l .send with
  | 0 => w.sendNow t l m after
  | ms => w.sleep t ms (.send l m after)

/-! ## Listening -/

/-- Goes on once an engine's listener is registered, or could not be. -/
def useListener (w : World) (t : TaskId) (u : Use) (result : Except Status Unit) : World :=
  match u, result with
  | .request i id m, .ok () =>
    match w.callers.get? i with
    | none => w
    | some c => w.send t c.seat.link m (.request i id)
  | .request i id _, .error s => w.complete i id (.refused s)
  | .serve _ _ _, .ok () => w.record (.finished t (.ok ()))
  | .serve s method h, .error st =>
    (w.modifyServer s (·.removeSame method h)).record
      (.finished t (.error (.failure (.transport st))))

/-- Notes the result of an attempt to register an engine's listener: after a success everyone who
waits goes on, after a failure the first of them makes the next attempt. -/
def settleCell (w : World) (e : EngineId) (result : Except Status Unit) : World :=
  match w.cell? e, result with
  | some (.attempting waiting), .ok () =>
    (w.modifySeat (fun p => { p with cell := .registered }) e).wakeAll waiting
  | some (.attempting []), .error _ => w.modifySeat (fun p => { p with cell := .vacant }) e
  | some (.attempting (t :: rest)), .error _ =>
    (w.modifySeat (fun p => { p with cell := .attempting rest }) e).wake t
  | _, _ => w

def afterRegister (w : World) (t : TaskId) (after : AfterRegister) (result : Except Status Unit) :
    World :=
  match after with
  | .use u =>
    ((w.record (.attempted u.engine result)).settleCell u.engine result).useListener t u result
  | .report r => w.record (.finished t (r.result result))

/-- Registers a listener on the hub, unless the link or the hub refuses. -/
def registerNow (w : World) (t : TaskId) (l : LinkId) (source : Address) (sink : Option Address)
    (listener : Listener) (after : AfterRegister) : World :=
  match w.refusal? l .register with
  | some s => w.afterRegister t after (.error s)
  | none =>
    match w.hub.register ⟨l, source, sink, listener⟩ with
    | .error s => w.afterRegister t after (.error s)
    | .ok hub => { w with hub := hub }.afterRegister t after (.ok ())

def register (w : World) (t : TaskId) (l : LinkId) (source : Address) (sink : Option Address)
    (listener : Listener) (after : AfterRegister) : World :=
  match w.delay l .register with
  | 0 => w.registerNow t l source sink listener after
  | ms => w.sleep t ms (.register l source sink listener after)

/-- Tries to register an engine's own listener: it receives what is sent to the engine from
anywhere. -/
def attempt (w : World) (t : TaskId) (u : Use) : World :=
  match w.seat? u.engine with
  | none => w
  | some p => w.register t p.link Address.any (some p.sink) (.engine u.engine) (.use u)

/-- Asks for an engine's own listener: uses it if it is registered, tries to register it if nobody
does, and else waits for the result. -/
def prepare (w : World) (t : TaskId) (u : Use) : World :=
  match w.cell? u.engine with
  | none => w
  | some .registered => w.useListener t u (.ok ())
  | some .vacant =>
    (w.modifySeat (fun p => { p with cell := .attempting [] }) u.engine).attempt t u
  | some (.attempting waiting) =>
    (w.modifySeat (fun p => { p with cell := .attempting (waiting ++ [t]) }) u.engine).park t
      (.resume u)

/-- Goes on after another task's attempt: uses the listener, or makes the next attempt. -/
def resume (w : World) (t : TaskId) (u : Use) : World :=
  match w.cell? u.engine with
  | some .registered => w.useListener t u (.ok ())
  | _ => w.attempt t u

def afterUnregister (w : World) (t : TaskId) (after : AfterUnregister)
    (result : Except Status Unit) : World :=
  match after with
  | .nothing => w
  | .report r => w.record (.finished t (r.result result))

/-- Unregisters a listener from the hub, unless the link or the hub refuses. -/
def unregisterNow (w : World) (t : TaskId) (l : LinkId) (source : Address) (sink : Option Address)
    (listener : Listener) (after : AfterUnregister) : World :=
  match w.refusal? l .unregister with
  | some s => w.afterUnregister t after (.error s)
  | none =>
    match w.hub.unregister source sink listener with
    | .error s => w.afterUnregister t after (.error s)
    | .ok hub => { w with hub := hub }.afterUnregister t after (.ok ())

def unregister (w : World) (t : TaskId) (l : LinkId) (source : Address) (sink : Option Address)
    (listener : Listener) (after : AfterUnregister) : World :=
  match w.delay l .unregister with
  | 0 => w.unregisterNow t l source sink listener after
  | ms => w.sleep t ms (.unregister l source sink listener after)

end Switchboard.World
