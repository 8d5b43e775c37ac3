import Mathlib.Logic.Relation
import Switchboard.Proofs.Frames

/-! # A turn in small moves

A task's turn is a chain of moves, each of which changes one thing of
consequence: a call ends, a listener is registered, a message is passed on.
Between two moves the running task is in the table with the job that it has
still to do, as if it had been parked there, so what holds of a world holds in
the middle of a turn in the same words. `Move` says once what a turn can do,
with the conditions under which it does it; every invariant of the library is
derived from it. That each turn is in fact made of moves is shown elsewhere.
-/

namespace Switchboard

/-- What is recorded after a message was sent or refused, the end of a call apart. -/
def AfterSend.events (t : TaskId) (r : Except Status Unit) : AfterSend → List Event
  | .request _ _ => []
  | .answer _ => []
  | .report p => [.finished t (p.result r)]

def AfterUnregister.events (t : TaskId) (r : Except Status Unit) : AfterUnregister → List Event
  | .nothing => []
  | .report p => [.finished t (p.result r)]

/-- The parts of a publication or a notification. -/
def Operation.posting? :
    Operation → Option (LinkId × UInt16 × (Address → Draft) × Option Payload × SendOptions)
  | .publish l resource payload options => some (l, resource, Draft.publication, payload, options)
  | .notify l resource destination payload options =>
    some (l, resource, fun topic => Draft.notification topic destination, payload, options)
  | _ => none

namespace World

/-- The hub with a registration, or why there is none at present. -/
def registration (w : World) (r : Registration) : Except Status Hub :=
  match w.refusal? r.owner .register with
  | some s => .error s
  | none => w.hub.register r

def unregistration (w : World) (l : LinkId) (source : Address) (sink : Option Address)
    (listener : Listener) : Except Status Hub :=
  match w.refusal? l .unregister with
  | some s => .error s
  | none => w.hub.unregister source sink listener

/-- What a task records and goes on with once the listener that it needs is registered. -/
def onward (w : World) (t : TaskId) : Use → List Event × Option Job
  | .request i id m =>
    match w.callers.get? i with
    | none => ([], none)
    | some c => ([.sent c.seat.link m], some (.send c.seat.link m (.request i id)))
  | .serve _ _ _ => ([.finished t (.ok ())], none)

/-- The running task records events, and goes on with a job or ends. -/
def proceed (w : World) (t : TaskId) (es : List Event) : Option Job → World
  | some j => (w.recordAll es).park t j
  | none => w.recordAll es

/-- The world without a task whose turn has come. -/
def without (w : World) (t : TaskId) : World :=
  { w with ready := w.ready.erase t, tasks := w.tasks.erase t }

@[simp] theorem proceed_keeps (w : World) (t : TaskId) (es : List Event) (next : Option Job) :
    (w.proceed t es next).now = w.now ∧ (w.proceed t es next).wall = w.wall ∧
    (w.proceed t es next).ids = w.ids ∧ (w.proceed t es next).hub = w.hub ∧
    (w.proceed t es next).links = w.links ∧ (w.proceed t es next).callers = w.callers ∧
    (w.proceed t es next).servers = w.servers ∧ (w.proceed t es next).calls = w.calls ∧
    (w.proceed t es next).ready = w.ready ∧ (w.proceed t es next).timers = w.timers ∧
    (w.proceed t es next).events = (es.map fun e => (w.now, e)).reverse ++ w.events ∧
    (w.proceed t es next).tasks = next.elim w.tasks fun j => w.tasks.set t ⟨j, false⟩ := by
  cases next <;> simp [proceed, recordAll_events]

theorem proceed_servers (w : World) (t : TaskId) (es : List Event) (next : Option Job) :
    (w.proceed t es next).servers = w.servers := by simp

theorem proceed_events (w : World) (t : TaskId) (es : List Event) (next : Option Job) :
    (w.proceed t es next).events = (es.map fun e => (w.now, e)).reverse ++ w.events := by simp

theorem proceed_ready (w : World) (t : TaskId) (es : List Event) (next : Option Job) :
    (w.proceed t es next).ready = w.ready := by simp

@[simp] theorem without_keeps (w : World) (t : TaskId) :
    (w.without t).now = w.now ∧ (w.without t).wall = w.wall ∧ (w.without t).ids = w.ids ∧
    (w.without t).hub = w.hub ∧ (w.without t).links = w.links ∧
    (w.without t).callers = w.callers ∧ (w.without t).servers = w.servers ∧
    (w.without t).calls = w.calls ∧ (w.without t).tasks = w.tasks.erase t ∧
    (w.without t).timers = w.timers ∧ (w.without t).events = w.events :=
  ⟨rfl, rfl, rfl, rfl, rfl, rfl, rfl, rfl, rfl, rfl, rfl⟩

end World

/-! ## Moves that only pass on -/

/-- The running task does nothing but record events, and goes on with another job or ends. -/
inductive Passes (w : World) (t : TaskId) : Job → List Event → Option Job → Prop
  | noted (key : Nat) (m : Message) :
    Passes w t (.deliver (.plain key) m) [.delivered (.plain key) m] none
  | lost (e : EngineId) (m : Message) (gone : ∀ p, w.seat? e = some p → p.gone = true) :
    Passes w t (.deliver (.engine e) m) [] none
  | unexpected (i : CallerId) (c : Caller) (m : Message) (caller : w.callers.get? i = some c)
      (alive : c.seat.gone = false) (unasked : m.answers? = none) :
    Passes w t (.deliver (.engine (.caller i)) m)
      (.delivered (.engine (.caller i)) m ::
        if c.reportsUnexpected then [.unexpected i m] else []) none
  | ignored (s : ServerId) (v : Server) (m : Message) (server : w.servers.get? s = some v)
      (alive : v.seat.gone = false) (judged : v.judge w.wall m = .ignored) :
    Passes w t (.deliver (.engine (.server s)) m) [.delivered (.engine (.server s)) m] none
  | served (s : ServerId) (v : Server) (h : Handler) (m : Message)
      (server : w.servers.get? s = some v) (alive : v.seat.gone = false)
      (judged : v.judge w.wall m = .served h) :
    Passes w t (.deliver (.engine (.server s)) m)
      [.delivered (.engine (.server s)) m, .handled s h.key m] (some (.handle s h m))
  | unattended (s : ServerId) (h : Handler) (m : Message) (server : w.servers.get? s = none) :
    Passes w t (.handle s h m) [] none
  | useAtOnce (u : Use) (registered : w.cell? u.engine = some .registered) :
    Passes w t (.prepare u) (w.onward t u).1 (w.onward t u).2
  | use (u : Use) (registered : w.cell? u.engine = some .registered) :
    Passes w t (.resume u) (w.onward t u).1 (w.onward t u).2
  | seatless (u : Use) (j : Job) (job : j = .prepare u ∨ j = .resume u)
      (seat : w.seat? u.engine = none) :
    Passes w t j [] none
  | attempt (u : Use) (p : Seat) (seat : w.seat? u.engine = some p)
      (unregistered : p.cell ≠ .registered) :
    Passes w t (.resume u) []
      (some (.register p.link Address.any (some p.sink) (.engine u.engine) (.use u)))
  | sendRefused (l : LinkId) (m : Message) (after : AfterSend) (s : Status)
      (refusal : w.refusal? l .send = some s) (other : ∀ i id, after ≠ .request i id) :
    Passes w t (.send l m after) (after.events t (.error s)) none
  | registerRefused (r : Registration) (p : Report) (s : Status)
      (refusal : w.registration r = .error s) :
    Passes w t (.register r.owner r.source r.sink r.listener (.report p))
      [.finished t (p.result (.error s))] none
  | withdraw (l : LinkId) (sink : Address) (e : EngineId) :
    Passes w t (.withdraw l sink e) []
      (some (.unregister l Address.any (some sink) (.engine e) .nothing))
  | unregisterRefused (l : LinkId) (source : Address) (sink : Option Address)
      (listener : Listener) (after : AfterUnregister) (s : Status)
      (refusal : w.unregistration l source sink listener = .error s) :
    Passes w t (.unregister l source sink listener after) (after.events t (.error s)) none
  | callless (k : CallId) (held : Option CallerId) (place : w.calls.get? k = none) :
    Passes w t (.await k held) [] none
  | resolved (k : CallId) (held : Option CallerId) (call : Call) (o : Except Failure Payload)
      (place : w.calls.get? k = some call) (outcome : call.outcome = some o) :
    Passes w t (.await k held) [.resolved t o] none
  | startSend (l : LinkId) (m : Message) :
    Passes w t (.start (.send l m)) [.sent l m] (some (.send l m (.report .plain)))
  | startRegister (l : LinkId) (source : Address) (sink : Option Address) (key : Nat)
      (r : Report) :
    Passes w t (.start (.register l source sink key r)) []
      (some (.register l source sink (.plain key) (.report r)))
  | startUnregister (l : LinkId) (source : Address) (sink : Option Address) (key : Nat)
      (r : Report) :
    Passes w t (.start (.unregister l source sink key r)) []
      (some (.unregister l source sink (.plain key) (.report r)))
  | startAwait (k : CallId) : Passes w t (.start (.await k)) [] (some (.await k none))
  | postNowhere (o : Operation) (l : LinkId) (resource : UInt16) (draft : Address → Draft)
      (payload : Option Payload) (options : SendOptions)
      (posting : o.posting? = some (l, resource, draft, payload, options))
      (link : w.links.get? l = none) :
    Passes w t (.start o) [] none
  | postOffTopic (o : Operation) (l : LinkId) (resource : UInt16) (draft : Address → Draft)
      (payload : Option Payload) (options : SendOptions) (link : Link) (e : Failure)
      (posting : o.posting? = some (l, resource, draft, payload, options))
      (linked : w.links.get? l = some link)
      (offTopic : World.topic link.address.entity resource = .error e) :
    Passes w t (.start o) [.finished t (.error (.failure e))] none
  | serveNowhere (s : ServerId) (method : Address) (h : Handler)
      (server : w.servers.get? s = none) :
    Passes w t (.start (.serve s method h)) [] none
  | serveRefused (s : ServerId) (v : Server) (method : Address) (h : Handler) (e : Failure)
      (server : w.servers.get? s = some v) (refused : v.checkVacant method = .error e) :
    Passes w t (.start (.serve s method h)) [.finished t (.error (.failure e))] none
  | closeNowhere (e : EngineId) (seat : w.seat? e = none) :
    Passes w t (.start (.close e)) [] none
  | closedBefore (e : EngineId) (p : Seat) (seat : w.seat? e = some p)
      (closed : p.closed = true) :
    Passes w t (.start (.close e)) [.finished t (.ok ())] none
  | callUnencodable (i : CallerId) (method : Address) (e : Failure) (options : CallOptions) :
    Passes w t (.start (.call i method (.error e) options)) [.resolved t (.error e)] none
  | restBriefly : Passes w t (.start (.rest 0)) [.finished t (.ok ())] none
  | rested : Passes w t .rest [.finished t (.ok ())] none

inductive Dozes (w : World) : Job → Nat → Prop
  | send (l : LinkId) (m : Message) (after : AfterSend) :
    Dozes w (.send l m after) (w.delay l .send)
  | register (l : LinkId) (source : Address) (sink : Option Address) (listener : Listener)
      (after : AfterRegister) :
    Dozes w (.register l source sink listener after) (w.delay l .register)
  | unregister (l : LinkId) (source : Address) (sink : Option Address) (listener : Listener)
      (after : AfterUnregister) :
    Dozes w (.unregister l source sink listener after) (w.delay l .unregister)
  | handle (s : ServerId) (h : Handler) (m : Message) : Dozes w (.handle s h m) h.delay

/-- A server answers a request with a draft: a handler has ended, or there is none. -/
inductive Replies (w : World) (s : ServerId) (m : Message) :
    Job → List Event → Draft → Option Payload → Prop
  | ended (h : Handler) :
    Replies w s m (.handle s h m) [] ((h.run m).answer m.attributes).1
      ((h.run m).answer m.attributes).2
  | unserved (v : Server) (draft : Draft) (server : w.servers.get? s = some v)
      (alive : v.seat.gone = false) (judged : v.judge w.wall m = .unserved draft) :
    Replies w s m (.deliver (.engine (.server s)) m) [.delivered (.engine (.server s)) m] draft none

/-! ## All moves -/

/-- The second world comes from the first by one move of a turn. Beside each world stands the
task that is running, if one is. -/
inductive Move : Option TaskId × World → Option TaskId × World → Prop
  /-- An engine that nobody holds goes away. -/
  | remove {w : World} {e : EngineId} {p : Seat} {side : World.Side}
      (seat : w.seat? e = some p) (unowned : p.handles = 0) (alive : p.gone = false)
      (unheld : w.isHeld e = false) :
    Move (none, w) (none, w.remove e p side)
  | pass {w : World} {t : TaskId} {j : Job} {es : List Event} {next : Option Job}
      (free : w.tasks.get? t = none) (passes : Passes w t j es next) :
    Move (some t, w.park t j) (next.map fun _ => t, w.proceed t es next)
  | doze {w : World} {t : TaskId} {j : Job} {ms : Nat} (free : w.tasks.get? t = none)
      (dozes : Dozes w j ms) :
    Move (some t, w.park t j) (none, w.sleep t ms j)
  /-- The task of the foreground waits for some milliseconds. -/
  | rest {w : World} {t : TaskId} {ms : Nat} (free : w.tasks.get? t = none) :
    Move (some t, w.park t (.start (.rest ms))) (none, w.sleep t ms .rest)
  /-- The timer of a call is armed. -/
  | arm {w : World} {t : TaskId} {i : CallerId} {id : MessageId} {timeout : Duration}
      (free : w.tasks.get? t = none) :
    Move (some t, w.park t (.deadline i id timeout))
      (none, w.sleep t timeout.ceilMillis (.expire i id timeout))
  /-- The deadline of a call has come. -/
  | expire {w : World} {t : TaskId} {i : CallerId} {id : MessageId} {timeout : Duration}
      (free : w.tasks.get? t = none) :
    Move (some t, w.park t (.expire i id timeout)) (none, w.complete i id (.lapsed timeout))
  /-- A caller receives an answer. -/
  | answered {w : World} {t : TaskId} {i : CallerId} {c : Caller} {m : Message} {id : MessageId}
      (free : w.tasks.get? t = none) (caller : w.callers.get? i = some c)
      (alive : c.seat.gone = false) (answers : m.answers? = some id) :
    Move (some t, w.park t (.deliver (.engine (.caller i)) m))
      (none, ((w.record (.delivered (.engine (.caller i)) m)).complete i id (.answered m)).recordAll
        (if (c.pending? id).isNone && c.reportsUnexpected then [.unexpected i m] else []))
  /-- A server answers a request. -/
  | reply {w : World} {t : TaskId} {s : ServerId} {v : Server} {m a : Message} {j : Job}
      {es : List Event} {draft : Draft} {payload : Option Payload}
      (free : w.tasks.get? t = none) (server : w.servers.get? s = some v)
      (replies : Replies w s m j es draft payload)
      (finish : draft.finish w.mint.1 payload = .ok a) :
    Move (some t, w.park t j)
      (some t, ((((w.recordAll es).mint.2.record (.answered s m a)).record
        (.sent v.seat.link a)).park t (.send v.seat.link a (.answer s))))
  /-- A server drops an answer that breaks the rules. -/
  | mute {w : World} {t : TaskId} {s : ServerId} {v : Server} {m : Message} {j : Job}
      {es : List Event} {draft : Draft} {payload : Option Payload} {e : Failure}
      (free : w.tasks.get? t = none) (server : w.servers.get? s = some v)
      (replies : Replies w s m j es draft payload)
      (finish : draft.finish w.mint.1 payload = .error e) :
    Move (some t, w.park t j) (none, (w.recordAll es).mint.2)
  /-- The first task that needs an engine's listener tries to register it. -/
  | claim {w : World} {t : TaskId} {u : Use} {p : Seat} (free : w.tasks.get? t = none)
      (seat : w.seat? u.engine = some p) (vacant : p.cell = .vacant) :
    Move (some t, w.park t (.prepare u))
      (some t, (w.modifySeat (fun p => { p with cell := .attempting [] }) u.engine).park t
        (.register p.link Address.any (some p.sink) (.engine u.engine) (.use u)))
  /-- A task waits for the attempt of another one. -/
  | wait {w : World} {t : TaskId} {u : Use} {p : Seat} {waiting : List TaskId}
      (free : w.tasks.get? t = none) (seat : w.seat? u.engine = some p)
      (attempting : p.cell = .attempting waiting) :
    Move (some t, w.park t (.prepare u))
      (none, (w.modifySeat (fun p => { p with cell := .attempting (waiting ++ [t]) })
        u.engine).park t (.resume u))
  /-- An engine's listener is registered. -/
  | enrol {w : World} {t : TaskId} {r : Registration} {u : Use} {hub : Hub}
      (free : w.tasks.get? t = none) (registration : w.registration r = .ok hub) :
    Move (some t, w.park t (.register r.owner r.source r.sink r.listener (.use u)))
      ((w.onward t u).2.map fun _ => t,
        (({ w with hub := hub }.record (.attempted u.engine (.ok ()))).settleCell u.engine
          (.ok ())).proceed t (w.onward t u).1 (w.onward t u).2)
  /-- A call cannot be made since its caller's listener is not registered. -/
  | failRequest {w : World} {t : TaskId} {r : Registration} {i : CallerId} {id : MessageId}
      {m : Message} {s : Status} (free : w.tasks.get? t = none)
      (refusal : w.registration r = .error s) :
    Move (some t, w.park t (.register r.owner r.source r.sink r.listener (.use (.request i id m))))
      (none, ((w.record (.attempted (.caller i) (.error s))).settleCell (.caller i)
        (.error s)).complete i id (.refused s))
  /-- A handler is not kept since its server's listener is not registered. -/
  | failServe {w : World} {t : TaskId} {r : Registration} {sv : ServerId} {method : Address}
      {h : Handler} {s : Status} (free : w.tasks.get? t = none)
      (refusal : w.registration r = .error s) :
    Move
      (some t, w.park t (.register r.owner r.source r.sink r.listener (.use (.serve sv method h))))
      (none, (((w.record (.attempted (.server sv) (.error s))).settleCell (.server sv)
        (.error s)).modifyServer sv (·.removeSame method h)).record
          (.finished t (.error (.failure (.transport s)))))
  /-- A plain listener is registered. -/
  | enlist {w : World} {t : TaskId} {r : Registration} {p : Report} {hub : Hub}
      (free : w.tasks.get? t = none) (registration : w.registration r = .ok hub) :
    Move (some t, w.park t (.register r.owner r.source r.sink r.listener (.report p)))
      (none, { w with hub := hub }.record (.finished t (p.result (.ok ()))))
  /-- A listener is unregistered. -/
  | unlist {w : World} {t : TaskId} {l : LinkId} {source : Address} {sink : Option Address}
      {listener : Listener} {after : AfterUnregister} {hub : Hub} (free : w.tasks.get? t = none)
      (unregistration : w.unregistration l source sink listener = .ok hub) :
    Move (some t, w.park t (.unregister l source sink listener after))
      (none, { w with hub := hub }.recordAll (after.events t (.ok ())))
  /-- A link refuses the request of a call. -/
  | refuse {w : World} {t : TaskId} {l : LinkId} {m : Message} {i : CallerId} {id : MessageId}
      {s : Status} (free : w.tasks.get? t = none) (refusal : w.refusal? l .send = some s) :
    Move (some t, w.park t (.send l m (.request i id))) (none, w.complete i id (.refused s))
  /-- A message is passed to the hub. -/
  | broadcast {w : World} {t : TaskId} {l : LinkId} {m : Message} {after : AfterSend}
      (free : w.tasks.get? t = none) (accepted : w.refusal? l .send = none) :
    Move (some t, w.park t (.send l m after))
      (none, (w.broadcast m).recordAll (after.events t (.ok ())))
  /-- A task waits for the outcome of a call. -/
  | await {w : World} {t : TaskId} {k : CallId} {held : Option CallerId} {call : Call}
      (free : w.tasks.get? t = none) (place : w.calls.get? k = some call)
      (pending : call.outcome = none) :
    Move (some t, w.park t (.await k held))
      (none, { w with calls := w.calls.set k { call with waiter := some t } }.park t
        (.await k held))
  /-- A handler is added to a server. -/
  | addHandler {w : World} {t : TaskId} {s : ServerId} {v : Server} {method : Address}
      {h : Handler} (free : w.tasks.get? t = none) (server : w.servers.get? s = some v)
      (vacant : v.checkVacant method = .ok ()) :
    Move (some t, w.park t (.start (.serve s method h)))
      (some t, (w.modifyServer s (·.addHandler method h)).park t (.prepare (.serve s method h)))
  /-- An engine is closed whose listener is registered. -/
  | closeListening {w : World} {t : TaskId} {e : EngineId} {p : Seat}
      (free : w.tasks.get? t = none) (seat : w.seat? e = some p) (opened : p.closed = false)
      (registered : p.cell = .registered) :
    Move (some t, w.park t (.start (.close e)))
      (some t, (w.modifySeat (fun p => { p with closed := true }) e).park t
        (.unregister p.link Address.any (some p.sink) (.engine e) (.report .listening)))
  /-- An engine is closed whose listener is not registered. -/
  | closeDeaf {w : World} {t : TaskId} {e : EngineId} {p : Seat} (free : w.tasks.get? t = none)
      (seat : w.seat? e = some p) (opened : p.closed = false)
      (unregistered : p.cell ≠ .registered) :
    Move (some t, w.park t (.start (.close e)))
      (none, (w.modifySeat (fun p => { p with closed := true }) e).record (.finished t (.ok ())))
  /-- A publication or a notification is passed to its link. -/
  | post {w : World} {t : TaskId} {o : Operation} {l : LinkId} {resource : UInt16}
      {draft : Address → Draft} {payload : Option Payload} {options : SendOptions} {link : Link}
      {topic : Address} {m : Message} (free : w.tasks.get? t = none)
      (posting : o.posting? = some (l, resource, draft, payload, options))
      (linked : w.links.get? l = some link)
      (onTopic : World.topic link.address.entity resource = .ok topic)
      (finish : (options.apply (draft topic)).finish w.mint.1 payload = .ok m) :
    Move (some t, w.park t (.start o))
      (some t, ((w.mint.2.record (.sent l m)).park t (.send l m (.report .sending))))
  /-- A publication or a notification breaks the rules. -/
  | postInvalid {w : World} {t : TaskId} {o : Operation} {l : LinkId} {resource : UInt16}
      {draft : Address → Draft} {payload : Option Payload} {options : SendOptions} {link : Link}
      {topic : Address} {e : Failure} (free : w.tasks.get? t = none)
      (posting : o.posting? = some (l, resource, draft, payload, options))
      (linked : w.links.get? l = some link)
      (onTopic : World.topic link.address.entity resource = .ok topic)
      (finish : (options.apply (draft topic)).finish w.mint.1 payload = .error e) :
    Move (some t, w.park t (.start o)) (none, w.mint.2.record (.finished t (.error (.failure e))))
  /-- A call is made whose outcome is awaited. -/
  | call {w v : World} {t : TaskId} {i : CallerId} {method : Address} {payload : Option Payload}
      {options : CallOptions} {accepted : World.Accepted} (free : w.tasks.get? t = none)
      (invoked : w.invoke i method payload options = (.ok accepted, v)) :
    Move (some t, w.park t (.start (.call i method (.ok payload) options)))
      (some t, v.park t (.await accepted.call (some i)))
  /-- A call is refused whose outcome was to be awaited. -/
  | callRefused {w v : World} {t : TaskId} {i : CallerId} {method : Address}
      {payload : Option Payload} {options : CallOptions} {e : Failure}
      (free : w.tasks.get? t = none)
      (invoked : w.invoke i method payload options = (.error e, v)) :
    Move (some t, w.park t (.start (.call i method (.ok payload) options)))
      (none, v.record (.resolved t (.error e)))

abbrev Moves : Option TaskId × World → Option TaskId × World → Prop := Relation.ReflTransGen Move

theorem Moves.single {a b : Option TaskId × World} (h : Move a b) : Moves a b :=
  Relation.ReflTransGen.single h

/-- A chain of moves of the running task, in which no engine goes away. -/
abbrev Works : Option TaskId × World → Option TaskId × World → Prop :=
  Relation.ReflTransGen fun a b => Move a b ∧ a.1.isSome = true

namespace Works

variable {w : World} {t : TaskId} {a b c : Option TaskId × World}

theorem single (h : Move (some t, w) b) : Works (some t, w) b :=
  Relation.ReflTransGen.single ⟨h, rfl⟩

theorem head (first : Move (some t, w) b) (rest : Works b c) : Works (some t, w) c :=
  Relation.ReflTransGen.head ⟨first, rfl⟩ rest

theorem moves (h : Works a b) : Moves a b := by
  induction h with
  | refl => exact .refl
  | tail _ last ih => exact .tail ih last.1

/-- Where no task runs, nothing is worked on. -/
theorem eq_of_idle (h : Works (none, w) b) : b = (none, w) := by
  rcases Relation.ReflTransGen.cases_head h with same | ⟨c, ⟨-, runs⟩, -⟩
  · exact same.symm
  · cases runs

end Works

end Switchboard
