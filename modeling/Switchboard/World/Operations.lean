import Switchboard.World.Transit

/-!
# Operations

How an operation starts, be it in the foreground or as a task of its own. It
does what it can at once; where it has to wait, its task is left with a job.
Its result is recorded as an event under the key of its task.
-/

namespace Switchboard.World

/-- Adds a handler to a server, and then asks for the server's listener. -/
def serve (w : World) (t : TaskId) (s : ServerId) (method : Address) (h : Handler) : World :=
  match w.servers.get? s with
  | none => w
  | some v =>
    match v.checkVacant method with
    | .error e => w.record (.finished t (.error (.failure e)))
    | .ok () => (w.modifyServer s (·.addHandler method h)).prepare t (.serve s method h)

/-- Closes an engine. Its listener is unregistered if it is registered by now; a second closing
does nothing. -/
def close (w : World) (t : TaskId) (e : EngineId) : World :=
  match w.seat? e with
  | none => w
  | some p =>
    if p.closed then w.record (.finished t (.ok ()))
    else
      let w := w.modifySeat (fun p => { p with closed := true }) e
      if p.cell == .registered then
        w.unregister t p.link Address.any (some p.sink) (.engine e) (.report .listening)
      else w.record (.finished t (.ok ()))

def topic (entity : Address) (resource : UInt16) : Except Failure Address :=
  let topic := entity.atResource resource
  if topic.isTopic then .ok topic
  else .error (.invalidArgument (topic.text ++ " is not a topic address"))

/-- Sends what was drafted for a topic of a link's entity. -/
def post (w : World) (t : TaskId) (l : LinkId) (resource : UInt16) (draft : Address → Draft)
    (payload : Option Payload) (options : SendOptions) : World :=
  match w.links.get? l with
  | none => w
  | some link =>
    match topic link.address.entity resource with
    | .error e => w.record (.finished t (.error (.failure e)))
    | .ok topic =>
      let (id, w) := w.mint
      match (options.apply (draft topic)).finish id payload with
      | .error e => w.record (.finished t (.error (.failure e)))
      | .ok m => w.send t l m (.report .sending)

def publish (w : World) (t : TaskId) (l : LinkId) (resource : UInt16) (payload : Option Payload)
    (options : SendOptions) : World :=
  w.post t l resource Draft.publication payload options

def notify (w : World) (t : TaskId) (l : LinkId) (resource : UInt16) (destination : Address)
    (payload : Option Payload) (options : SendOptions) : World :=
  w.post t l resource (fun topic => Draft.notification topic destination) payload options

def rest (w : World) (t : TaskId) : (ms : Nat) → World
  | 0 => w.record (.finished t (.ok ()))
  | ms => w.sleep t ms .rest

def start (w : World) (t : TaskId) : Operation → World
  | .send l m => w.send t l m (.report .plain)
  | .register l source sink key r => w.register t l source sink (.plain key) (.report r)
  | .unregister l source sink key r => w.unregister t l source sink (.plain key) (.report r)
  | .publish l resource payload options => w.publish t l resource payload options
  | .notify l resource destination payload options =>
    w.notify t l resource destination payload options
  | .serve s method h => w.serve t s method h
  | .close e => w.close t e
  | .call i method payload options => w.call t i method payload options
  | .await c => w.await t c none
  | .rest ms => w.rest t ms

end Switchboard.World
