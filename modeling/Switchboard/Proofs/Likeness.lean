import Mathlib.Data.List.Forall2
import Switchboard.Proofs.Runs

/-! # Worlds that differ in what messages carry

On the way from a caller to a handler and back nobody looks at what a message only carries: at its
payload, its token and, in an answer, its status. The rules of the kinds, the filters of the hub and
the engines look at the rest, the frame. So which messages may stand for each other is left open
here: it is a `Likeness`, which must respect frames, the outcomes that answers bring and what
handlers make of requests. Two worlds are `Alike` if one is the other with some messages, and the
outcomes that come of them, in the place of others.
-/

namespace Switchboard

/-- The attributes without what they only carry along. -/
def Attributes.frame (a : Attributes) : Attributes :=
  { a with token := none, commStatus := none, commMessage := none }

def Message.frame (m : Message) : Message := ⟨m.attributes.frame, none⟩

section Frames

variable {m m' : Message}

theorem Message.answers?_congr (h : m.frame = m'.frame) : m.answers? = m'.answers? :=
  show m.frame.answers? = m'.frame.answers? by rw [h]

theorem Hub.recipients_congr (hub : Hub) (h : m.frame = m'.frame) :
    hub.recipients m = hub.recipients m' :=
  show hub.recipients m.frame = hub.recipients m'.frame by rw [h]

theorem Server.judge_congr (s : Server) (now : Nat) (h : m.frame = m'.frame) :
    s.judge now m = s.judge now m' :=
  show s.judge now m.frame = s.judge now m'.frame by rw [h]

theorem Server.mem_handlers_of_judge {s : Server} {now : Nat} {h : Handler}
    (judged : s.judge now m = .served h) : ∃ method, (method, h) ∈ s.handlers := by
  obtain ⟨-, -, -, serves⟩ := judge_eq_served judged
  obtain ⟨method, -, serves⟩ := Option.bind_eq_some_iff.mp serves
  obtain ⟨_, _, handlers, -⟩ := List.lookup_eq_some_iff.mp serves
  exact ⟨method, handlers ▸ List.mem_append_right _ List.mem_cons_self⟩

theorem Ending.answer_frame (e : Ending) (a : Attributes) : e.answer a.frame = e.answer a := by
  cases e <;> rfl

/-- An ending makes the same answer to requests that have one frame. -/
theorem Ending.answer_congr (e : Ending) (h : m.frame = m'.frame) :
    e.answer m.attributes = e.answer m'.attributes := by
  rw [← answer_frame, ← answer_frame e m'.attributes]
  exact congrArg (fun m => e.answer m.attributes) h

/-- Drafts that have one frame are refused together, for the same defects. -/
theorem Draft.validate_congr {d d' : Draft} (h : d.attributes.frame = d'.attributes.frame)
    (fresh : MessageId) : (d.identified fresh).validate = (d'.identified fresh).validate :=
  show ((⟨d.attributes.frame⟩ : Draft).identified fresh).validate =
    ((⟨d'.attributes.frame⟩ : Draft).identified fresh).validate by rw [h]

end Frames

/-- Two drafts come to messages that are alike, or both fail and for one reason. -/
inductive Finishes (R : Message → Message → Prop) :
    Except Failure Message → Except Failure Message → Prop
  | ok {m m' : Message} (like : R m m') : Finishes R (.ok m) (.ok m')
  | error (e : Failure) : Finishes R (.error e) (.error e)

theorem Finishes.refl {R : Message → Message → Prop} (refl : ∀ m, R m m) :
    ∀ x, Finishes R x x
  | .ok m => .ok (refl m)
  | .error e => .error e

theorem Finishes.either {R : Message → Message → Prop} {x y : Except Failure Message}
    (h : Finishes R x y) :
    (∃ m m', x = .ok m ∧ y = .ok m' ∧ R m m') ∨ ∃ e, x = .error e ∧ y = .error e := by
  cases h with
  | ok like => exact .inl ⟨_, _, rfl, rfl, like⟩
  | error e => exact .inr ⟨e, rfl, rfl⟩

/-- Which messages may stand for each other, and which outcomes of the call of an id. Answers that
are alike bring outcomes that are, and the handlers of some kind answer requests that are alike with
answers that are. -/
structure Likeness where
  message : Message → Message → Prop
  outcome : MessageId → Except Failure Payload → Except Failure Payload → Prop
  handler : Handler → Prop
  message_refl : ∀ m, message m m
  outcome_refl : ∀ id o, outcome id o o
  frame : ∀ {m m'}, message m m' → m.frame = m'.frame
  answers : ∀ {m m' id}, message m m' → m.answers? = some id → outcome id m.outcome m'.outcome
  handled : ∀ {h m m'} (fresh : MessageId), handler h → message m m' →
    m.attributes.isRequest = true →
      Finishes message (((h.run m).answer m.attributes).1.finish fresh
          ((h.run m).answer m.attributes).2)
        (((h.run m').answer m'.attributes).1.finish fresh ((h.run m').answer m'.attributes).2)

variable (L : Likeness)

/-! ## What carries messages -/

inductive Use.Alike : Use → Use → Prop
  | request (i : CallerId) (id : MessageId) {m m' : Message} (like : L.message m m') :
    Alike (.request i id m) (.request i id m')
  | serve (s : ServerId) (method : Address) (h : Handler) (kind : L.handler h) :
    Alike (.serve s method h) (.serve s method h)

/-- What is published or notified may differ as long as it is drafted into messages that are
alike. -/
def Likeness.Posts (draft : Address → Draft) (payload payload' : Option Payload)
    (options options' : SendOptions) : Prop :=
  ∀ topic fresh, Finishes L.message ((options.apply (draft topic)).finish fresh payload)
    ((options'.apply (draft topic)).finish fresh payload')

structure Likeness.Asks (method : Address) (payload payload' : Option Payload)
    (options options' : CallOptions) : Prop where
  timeout : options'.timeout = options.timeout
  request : ∀ (c : Caller) (id : MessageId), Finishes L.message
    ((c.draft method options id).finish id payload)
    ((c.draft method options' id).finish id payload')

inductive Operation.Alike : Operation → Operation → Prop
  | send (l : LinkId) {m m' : Message} (like : L.message m m') : Alike (.send l m) (.send l m')
  | register (l : LinkId) (source : Address) (sink : Option Address) (key : Nat) (r : Report) :
    Alike (.register l source sink key r) (.register l source sink key r)
  | unregister (l : LinkId) (source : Address) (sink : Option Address) (key : Nat) (r : Report) :
    Alike (.unregister l source sink key r) (.unregister l source sink key r)
  | publish (l : LinkId) (resource : UInt16) {payload payload' : Option Payload}
      {options options' : SendOptions}
      (like : L.Posts Draft.publication payload payload' options options') :
    Alike (.publish l resource payload options) (.publish l resource payload' options')
  | notify (l : LinkId) (resource : UInt16) (destination : Address)
      {payload payload' : Option Payload} {options options' : SendOptions}
      (like : L.Posts (Draft.notification · destination) payload payload' options options') :
    Alike (.notify l resource destination payload options)
      (.notify l resource destination payload' options')
  | serve (s : ServerId) (method : Address) (h : Handler) (kind : L.handler h) :
    Alike (.serve s method h) (.serve s method h)
  | close (e : EngineId) : Alike (.close e) (.close e)
  | call (i : CallerId) (method : Address) {payload payload' : Option Payload}
      {options options' : CallOptions} (like : L.Asks method payload payload' options options') :
    Alike (.call i method (.ok payload) options) (.call i method (.ok payload') options')
  | unencoded (i : CallerId) (method : Address) (e : Failure) (options options' : CallOptions) :
    Alike (.call i method (.error e) options) (.call i method (.error e) options')
  | await (k : CallId) : Alike (.await k) (.await k)
  | rest (ms : Nat) : Alike (.rest ms) (.rest ms)

inductive AfterRegister.Alike : AfterRegister → AfterRegister → Prop
  | use {u u' : Use} (like : u.Alike L u') : Alike (.use u) (.use u')
  | report (r : Report) : Alike (.report r) (.report r)

inductive Job.Alike : Job → Job → Prop
  | deliver (l : Listener) {m m' : Message} (like : L.message m m') :
    Alike (.deliver l m) (.deliver l m')
  | handle (s : ServerId) (h : Handler) {m m' : Message} (kind : L.handler h)
      (request : m.attributes.isRequest = true) (like : L.message m m') :
    Alike (.handle s h m) (.handle s h m')
  | deadline (i : CallerId) (id : MessageId) (timeout : Duration) :
    Alike (.deadline i id timeout) (.deadline i id timeout)
  | expire (i : CallerId) (id : MessageId) (timeout : Duration) :
    Alike (.expire i id timeout) (.expire i id timeout)
  | prepare {u u' : Use} (like : u.Alike L u') : Alike (.prepare u) (.prepare u')
  | resume {u u' : Use} (like : u.Alike L u') : Alike (.resume u) (.resume u')
  | send (l : LinkId) (after : AfterSend) {m m' : Message} (like : L.message m m') :
    Alike (.send l m after) (.send l m' after)
  | register (l : LinkId) (source : Address) (sink : Option Address) (listener : Listener)
      {after after' : AfterRegister} (like : after.Alike L after') :
    Alike (.register l source sink listener after) (.register l source sink listener after')
  | withdraw (l : LinkId) (sink : Address) (e : EngineId) :
    Alike (.withdraw l sink e) (.withdraw l sink e)
  | unregister (l : LinkId) (source : Address) (sink : Option Address) (listener : Listener)
      (after : AfterUnregister) :
    Alike (.unregister l source sink listener after) (.unregister l source sink listener after)
  | await (k : CallId) (held : Option CallerId) : Alike (.await k held) (.await k held)
  | start {o o' : Operation} (like : o.Alike L o') : Alike (.start o) (.start o')
  | rest : Alike .rest .rest

structure Task.Alike (x y : Task) : Prop where
  job : x.job.Alike L y.job
  cancelled : y.cancelled = x.cancelled

structure Call.Alike (x y : Call) : Prop where
  caller : y.caller = x.caller
  id : y.id = x.id
  outcome : Option.Rel (L.outcome x.id) x.outcome y.outcome
  waiter : y.waiter = x.waiter

inductive Cause.Alike : Cause → Cause → Prop
  | answered {m m' : Message} (like : L.message m m') : Alike (.answered m) (.answered m')
  | lapsed (timeout : Duration) : Alike (.lapsed timeout) (.lapsed timeout)
  | refused (s : Status) : Alike (.refused s) (.refused s)

inductive Event.Alike : Event → Event → Prop
  | sent (l : LinkId) {m m' : Message} (like : L.message m m') : Alike (.sent l m) (.sent l m')
  | delivered (l : Listener) {m m' : Message} (like : L.message m m') :
    Alike (.delivered l m) (.delivered l m')
  | unexpected (i : CallerId) {m m' : Message} (like : L.message m m') :
    Alike (.unexpected i m) (.unexpected i m')
  | handled (s : ServerId) (key : Nat) {m m' : Message} (request : m.attributes.isRequest = true)
      (like : L.message m m') : Alike (.handled s key m) (.handled s key m')
  | answered (s : ServerId) {r r' m m' : Message} (request : r.attributes.isRequest = true)
      (asked : L.message r r') (like : L.message m m') :
    Alike (.answered s r m) (.answered s r' m')
  | attempted (e : EngineId) (r : Except Status Unit) : Alike (.attempted e r) (.attempted e r)
  | accepted (i : CallerId) (id : MessageId) (timeout : Duration) :
    Alike (.accepted i id timeout) (.accepted i id timeout)
  | ended (i : CallerId) (id : MessageId) {c c' : Cause} (like : c.Alike L c') :
    Alike (.ended i id c) (.ended i id c')
  | resolved (t : TaskId) (id : MessageId) {o o' : Except Failure Payload}
      (like : L.outcome id o o') : Alike (.resolved t o) (.resolved t o')
  /-- The call was refused at once, before it had an id. -/
  | refused (t : TaskId) (e : Failure) : Alike (.resolved t (.error e)) (.resolved t (.error e))
  | finished (t : TaskId) (r : Except Refusal Unit) : Alike (.finished t r) (.finished t r)

inductive World.Command.Alike : World.Command → World.Command → Prop
  | addLink (address : Address) : Alike (.addLink address) (.addLink address)
  | setFault (l : LinkId) (a : Action) (fault : Fault) :
    Alike (.setFault l a fault) (.setFault l a fault)
  | closeLink (l : LinkId) : Alike (.closeLink l) (.closeLink l)
  | addCaller (l : LinkId) (reports : Bool) : Alike (.addCaller l reports) (.addCaller l reports)
  | addServer (l : LinkId) : Alike (.addServer l) (.addServer l)
  | hold (e : EngineId) : Alike (.hold e) (.hold e)
  | drop (e : EngineId) (side : World.Side) : Alike (.drop e side) (.drop e side)
  | invoke (i : CallerId) (method : Address) {payload payload' : Option Payload}
      {options options' : CallOptions} (like : L.Asks method payload payload' options options') :
    Alike (.invoke i method payload options) (.invoke i method payload' options')
  | unserve (s : ServerId) (method : Address) (h : Handler) :
    Alike (.unserve s method h) (.unserve s method h)
  | enter {o o' : Operation} (like : o.Alike L o') : Alike (.enter o) (.enter o')
  | spawn {o o' : Operation} (like : o.Alike L o') : Alike (.spawn o) (.spawn o')

inductive Act.Alike : Act → Act → Prop
  | command {c c' : World.Command} (like : c.Alike L c') : Alike (.command c) (.command c')
  | turn (t : TaskId) : Alike (.turn t) (.turn t)
  | fire (due : Nat) : Alike (.fire due) (.fire due)
  | clock (wall : Nat) : Alike (.clock wall) (.clock wall)
  | inbound (l : Listener) {m m' : Message} (like : L.message m m') :
    Alike (.inbound l m) (.inbound l m')

def Operation.handler? : Operation → Option Handler
  | serve _ _ h => some h
  | _ => none

def Act.handler? : Act → Option Handler
  | command (.enter o) => o.handler?
  | command (.spawn o) => o.handler?
  | _ => none

section Same

theorem Likeness.Posts.refl (draft : Address → Draft) (payload : Option Payload)
    (options : SendOptions) : L.Posts draft payload payload options options :=
  fun _ _ => .refl L.message_refl _

theorem Likeness.Asks.refl (method : Address) (payload : Option Payload) (options : CallOptions) :
    L.Asks method payload payload options options :=
  ⟨rfl, fun _ _ => .refl L.message_refl _⟩

variable {L}

theorem Operation.Alike.refl {o : Operation} (kind : ∀ h, o.handler? = some h → L.handler h) :
    o.Alike L o := by
  cases o with
  | send l m => exact .send l (L.message_refl m)
  | register l source sink key r => exact .register l source sink key r
  | unregister l source sink key r => exact .unregister l source sink key r
  | publish l resource payload options => exact .publish l resource (.refl L _ payload options)
  | notify l resource destination payload options =>
    exact .notify l resource destination (.refl L _ payload options)
  | serve s method h => exact .serve s method h (kind h rfl)
  | close e => exact .close e
  | call i method payload options =>
    cases payload with
    | error e => exact .unencoded i method e options options
    | ok payload => exact .call i method (.refl L method payload options)
  | await k => exact .await k
  | rest ms => exact .rest ms

theorem World.Command.Alike.refl {c : World.Command}
    (kind : ∀ h, (Act.command c).handler? = some h → L.handler h) : c.Alike L c := by
  cases c with
  | addLink address => exact .addLink address
  | setFault l a fault => exact .setFault l a fault
  | closeLink l => exact .closeLink l
  | addCaller l reports => exact .addCaller l reports
  | addServer l => exact .addServer l
  | hold e => exact .hold e
  | drop e side => exact .drop e side
  | invoke i method payload options => exact .invoke i method (.refl L method payload options)
  | unserve s method h => exact .unserve s method h
  | enter o => exact .enter (.refl kind)
  | spawn o => exact .spawn (.refl kind)

theorem Act.Alike.refl {a : Act} (kind : ∀ h, a.handler? = some h → L.handler h) :
    a.Alike L a := by
  cases a with
  | command c => exact .command (.refl kind)
  | turn t => exact .turn t
  | fire due => exact .fire due
  | clock wall => exact .clock wall
  | inbound l m => exact .inbound l (L.message_refl m)

theorem Cause.Alike.refl : ∀ c : Cause, c.Alike L c
  | .answered m => .answered (L.message_refl m)
  | .lapsed timeout => .lapsed timeout
  | .refused s => .refused s

end Same

variable {L}

theorem Use.Alike.engine {u u' : Use} (h : u.Alike L u') : u'.engine = u.engine := by
  cases h <;> rfl

theorem Operation.Alike.engine? {o o' : Operation} (h : o.Alike L o') :
    o'.engine? = o.engine? := by
  cases h <;> rfl

theorem World.Command.Alike.engine? {c c' : World.Command} (h : c.Alike L c') :
    c'.engine? = c.engine? := by
  cases h with
  | enter like => exact like.engine?
  | spawn like => exact like.engine?
  | _ => rfl

theorem Job.Alike.holds {j j' : Job} (h : j.Alike L j') : j'.holds = j.holds := by
  cases h with
  | prepare like => exact congrArg some like.engine
  | resume like => exact congrArg some like.engine
  | send l after like => cases after <;> rfl
  | register l source sink listener like =>
    cases like with
    | use like => exact congrArg some like.engine
    | report r => rfl
  | start like => exact like.engine?
  | _ => rfl

namespace Table

variable {α β : Type} {R : α → β → Prop} {t : Table α} {u : Table β} {a : α} {b : β} {k : Nat}

/-- Under the same keys the tables have entries that are related. -/
structure Rel (R : α → β → Prop) (t : Table α) (u : Table β) : Prop where
  next : u.next = t.next
  entries : List.Forall₂ (fun x y => y.1 = x.1 ∧ R x.2 y.2) t.entries u.entries

namespace Rel

theorem empty : Rel R {} {} := ⟨rfl, .nil⟩

theorem get? (h : Rel R t u) (k : Nat) : (t.get? k = none ∧ u.get? k = none) ∨
    ∃ a b, t.get? k = some a ∧ u.get? k = some b ∧ R a b := by
  obtain ⟨n, l⟩ := t
  obtain ⟨n', l'⟩ := u
  replace h := h.entries
  simp only [Table.get?] at h ⊢
  induction h with
  | nil => exact .inl ⟨rfl, rfl⟩
  | @cons x y l l' hxy _ ih =>
    obtain ⟨i, a⟩ := x
    obtain ⟨i', b⟩ := y
    obtain ⟨rfl, like⟩ := hxy
    by_cases own : k = i'
    · exact .inr ⟨a, b, by simp [own], by simp [own], like⟩
    · have other : (k == i') = false := by simpa using own
      simpa only [List.lookup_cons, other] using ih

theorem insert (h : Rel R t u) (like : R a b) : Rel R (t.insert a).2 (u.insert b).2 :=
  ⟨congrArg (· + 1) h.next, .cons ⟨h.next, like⟩ h.entries⟩

theorem reserve (h : Rel R t u) : Rel R t.reserve.2 u.reserve.2 :=
  ⟨congrArg (· + 1) h.next, h.entries⟩

theorem erase (h : Rel R t u) (k : Nat) : Rel R (t.erase k) (u.erase k) := by
  obtain ⟨n, l⟩ := t
  obtain ⟨n', l'⟩ := u
  refine ⟨h.next, ?_⟩
  replace h := h.entries
  simp only [Table.erase] at h ⊢
  induction h with
  | nil => exact .nil
  | @cons x y l l' hxy _ ih =>
    simp only [List.filter_cons, hxy.1]
    split
    · exact .cons hxy ih
    · exact ih

theorem set (h : Rel R t u) (k : Nat) (like : R a b) : Rel R (t.set k a) (u.set k b) :=
  ⟨h.next, .cons ⟨rfl, like⟩ (h.erase k).entries⟩

theorem any {p : α → Bool} {q : β → Bool} (h : Rel R t u) (same : ∀ a b, R a b → q b = p a) :
    u.any q = t.any p := by
  obtain ⟨n, l⟩ := t
  obtain ⟨n', l'⟩ := u
  replace h := h.entries
  simp only [Table.any] at h ⊢
  induction h with
  | nil => rfl
  | cons hxy _ ih => simp only [List.any_cons, same _ _ hxy.2, ih]

end Rel

end Table

/-! ## Worlds -/

/-- The worlds are the same but for messages, and the outcomes that come of them, in the place of
others. -/
structure World.Alike (L : Likeness) (w v : World) : Prop where
  now : v.now = w.now
  wall : v.wall = w.wall
  ids : v.ids = w.ids
  hub : v.hub = w.hub
  links : v.links = w.links
  callers : v.callers = w.callers
  servers : v.servers = w.servers
  ready : v.ready = w.ready
  timers : v.timers = w.timers
  calls : w.calls.Rel (Call.Alike L) v.calls
  tasks : w.tasks.Rel (Task.Alike L) v.tasks
  events : List.Forall₂ (fun x y => y.1 = x.1 ∧ x.2.Alike L y.2) w.events v.events
  /-- All handlers are of the kind that the likeness is about. -/
  handlers : ∀ s u, w.servers.get? s = some u → ∀ x ∈ u.handlers, L.handler x.2

/-- The worlds are in step: the clocks, the listeners, the links, the callers with their pending
calls, the servers with their handlers and the order of the tasks are the same. -/
structure World.InStep (w v : World) : Prop where
  now : v.now = w.now
  wall : v.wall = w.wall
  ids : v.ids = w.ids
  hub : v.hub = w.hub
  links : v.links = w.links
  callers : v.callers = w.callers
  servers : v.servers = w.servers
  ready : v.ready = w.ready
  timers : v.timers = w.timers

theorem World.Alike.inStep {w v : World} (h : w.Alike L v) : w.InStep v :=
  ⟨h.now, h.wall, h.ids, h.hub, h.links, h.callers, h.servers, h.ready, h.timers⟩

end Switchboard
