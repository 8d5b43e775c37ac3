import Switchboard.World.Run

/-!
# Commands

What can be asked of a world from outside and is done at once: links and engines
are added and go away, calls are made, operations start. A command to an engine
comes from one of its owners.
-/

namespace Switchboard.World

def addLink (w : World) (address : Address) : LinkId × World :=
  let (l, links) := w.links.insert { address := address }
  (l, { w with links := links })

/-- Makes an action of a link misbehave from now on, or behave again. -/
def setFault (w : World) (l : LinkId) (a : Action) (fault : Fault) : World :=
  { w with links := w.links.modify l fun link => link.setFault fault a }

/-- Closes a link; what was registered through it is removed. -/
def closeLink (w : World) (l : LinkId) : World :=
  { w with
    links := w.links.modify l fun link => { link with closed := true }
    hub := w.hub.withdraw l }

def addCaller (w : World) (l : LinkId) (reportsUnexpected : Bool) : Option (CallerId × World) :=
  (w.links.get? l).map fun link =>
    let (i, callers) := w.callers.insert (.onLink l link.address reportsUnexpected)
    (i, { w with callers := callers })

def addServer (w : World) (l : LinkId) : Option (ServerId × World) :=
  (w.links.get? l).map fun link =>
    let (s, servers) := w.servers.insert (.onLink l link.address)
    (s, { w with servers := servers })

def hold (w : World) (e : EngineId) : World :=
  w.modifySeat (fun p => { p with handles := p.handles + 1 }) e

/-- Takes an owner from an engine, which goes away with the last one. -/
def letGo (w : World) (e : EngineId) (side : Side) : World :=
  (w.modifySeat (fun p => { p with handles := p.handles - 1 }) e).release e side

/-- Takes an owner from an engine inside the runtime. -/
def drop (w : World) (e : EngineId) : World := w.letGo e .inside

/-- Takes the handler of a method away; it must be the very one that serves it. -/
def unserve (w : World) (s : ServerId) (method : Address) (h : Handler) :
    Except Failure Unit × World :=
  match w.servers.get? s with
  | none => (.ok (), w)
  | some v =>
    match v.unserve method h with
    | .error e => (.error e, w)
    | .ok v => (.ok (), w.modifyServer s fun _ => v)

/-! ## All commands -/

/-- What can be asked of a world. -/
inductive Command
  | addLink (address : Address)
  | setFault (l : LinkId) (a : Action) (fault : Fault)
  | closeLink (l : LinkId)
  | addCaller (l : LinkId) (reportsUnexpected : Bool)
  | addServer (l : LinkId)
  | hold (e : EngineId)
  | drop (e : EngineId) (side : Side)
  | invoke (i : CallerId) (method : Address) (payload : Option Payload) (options : CallOptions)
  | unserve (s : ServerId) (method : Address) (h : Handler)
  /-- Starts an operation in the foreground. -/
  | enter (o : Operation)
  /-- Leaves an operation to a task of its own. -/
  | spawn (o : Operation)

namespace Command

def engine? : Command → Option EngineId
  | hold e => some e
  | drop e _ => some e
  | invoke i _ _ _ => some (.caller i)
  | unserve s _ _ => some (.server s)
  | enter o => o.engine?
  | spawn o => o.engine?
  | _ => none

/-- The command is given to no engine, or by one of the engine's owners. -/
def isAllowed (c : Command) (w : World) : Bool := c.engine?.all w.isOwned

end Command

def obey (w : World) : Command → World
  | .addLink address => (w.addLink address).2
  | .setFault l a fault => w.setFault l a fault
  | .closeLink l => w.closeLink l
  | .addCaller l reportsUnexpected => ((w.addCaller l reportsUnexpected).map (·.2)).getD w
  | .addServer l => ((w.addServer l).map (·.2)).getD w
  | .hold e => w.hold e
  | .drop e side => w.letGo e side
  | .invoke i method payload options => (w.invoke i method payload options).2
  | .unserve s method h => (w.unserve s method h).2
  | .enter o => (w.enter o).2
  | .spawn o => (w.spawn (.start o)).2

/-- Takes all owners from an engine, outside the runtime. -/
def forsake (w : World) (e : EngineId) : World :=
  (w.modifySeat (fun p => { p with handles := 0 }) e).release e .outside

/-- Ends everything: no task runs any more, and then all engines are forsaken. -/
def shutdown (w : World) : World :=
  let w := { w with tasks := { w.tasks with entries := [] }, ready := [], timers := [] }
  let w := w.callers.entries.foldl (fun w e => w.forsake (.caller e.1)) w
  w.servers.entries.foldl (fun w e => w.forsake (.server e.1)) w

end Switchboard.World
