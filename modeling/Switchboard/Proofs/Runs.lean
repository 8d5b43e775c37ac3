import Switchboard.World.History
import Switchboard.Proofs.Turns

/-! # Runs

A run is a list of acts: commands from outside, turns of tasks in any order,
the time that moves to the next timer, the calendar's clock that is set, and
messages that a network hands to a listener, be they right or wrong, new or
repeated. What is said of a run is said of each of its moments (`Along`), and
what holds of the world after a run is shown by an invariant that the outset of
an act and every move keep (`Kept.run`). Main statements: a possible future is
the world after a run that nothing reaches but through the hub (`reaches_iff`),
and `Kept.run`.
-/

namespace Switchboard

inductive Act
  /-- An owner or somebody outside gives a command. -/
  | command (c : World.Command)
  /-- A ready task takes its turn. -/
  | turn (t : TaskId)
  /-- The time moves to the next timer. -/
  | fire (due : Nat)
  /-- The calendar's clock is set. -/
  | clock (wall : Nat)
  /-- A network hands a message to a listener, past the hub and its filters. -/
  | inbound (l : Listener) (m : Message)

def World.act (w : World) : Act → World
  | .command c => w.obey c
  | .turn t => w.run t
  | .fire due => w.fire due
  | .clock wall => { w with wall := wall }
  | .inbound l m => (w.spawn (.deliver l m)).2

namespace Act

/-- The act can happen: a command is allowed, a task is ready, a timer is next. -/
def IsPossible (w : World) : Act → Prop
  | command c => c.isAllowed w = true
  | turn t => t ∈ w.ready
  | fire due => w.nextDue = some due
  | clock _ => True
  | inbound _ _ => True

instance (w : World) (a : Act) : Decidable (a.IsPossible w) :=
  match a with
  | command c => inferInstanceAs (Decidable (c.isAllowed w = true))
  | turn t => inferInstanceAs (Decidable (t ∈ w.ready))
  | fire due => inferInstanceAs (Decidable (w.nextDue = some due))
  | clock _ => inferInstanceAs (Decidable True)
  | inbound _ _ => inferInstanceAs (Decidable True)

/-- A message that comes from outside, ready-made. -/
def message? : Act → Option Message
  | command (.enter (.send _ m)) => some m
  | command (.spawn (.send _ m)) => some m
  | inbound _ m => some m
  | _ => none

end Act

def World.after (w : World) (as : List Act) : World := as.foldl World.act w

@[simp] theorem World.after_nil (w : World) : w.after [] = w := rfl

@[simp] theorem World.after_cons (w : World) (a : Act) (as : List Act) :
    w.after (a :: as) = (w.act a).after as := rfl

@[simp] theorem World.after_append (w : World) (as bs : List Act) :
    w.after (as ++ bs) = (w.after as).after bs := List.foldl_append ..

/-- At each moment of a run the property holds of the world and of the act that comes next. -/
def Along (P : World → Act → Prop) : World → List Act → Prop
  | _, [] => True
  | w, a :: as => P w a ∧ Along P (w.act a) as

namespace Along

variable {P Q : World → Act → Prop} {w : World} {as bs : List Act}

instance decidable [∀ v a, Decidable (P v a)] :
    (w : World) → (as : List Act) → Decidable (Along P w as)
  | _, [] => inferInstanceAs (Decidable True)
  | w, a :: as =>
    have : Decidable (Along P (w.act a) as) := decidable (w.act a) as
    inferInstanceAs (Decidable (P w a ∧ Along P (w.act a) as))

theorem append : Along P w (as ++ bs) ↔ Along P w as ∧ Along P (w.after as) bs := by
  induction as generalizing w with
  | nil => simp [Along]
  | cons a as ih => simp [Along, ih, and_assoc]

theorem mono (h : Along P w as) (himp : ∀ v a, P v a → Q v a) : Along Q w as := by
  induction as generalizing w with
  | nil => trivial
  | cons a as ih => exact ⟨himp w a h.1, ih h.2⟩

theorem of_forall (h : ∀ a ∈ as, ∀ v, P v a) : Along P w as := by
  induction as generalizing w with
  | nil => trivial
  | cons a as ih =>
    exact ⟨h a List.mem_cons_self w, ih fun b hb => h b (List.mem_cons_of_mem _ hb)⟩

theorem of_split (h : ∀ p a q, as = p ++ a :: q → P (w.after p) a) : Along P w as := by
  induction as generalizing w with
  | nil => trivial
  | cons a as ih =>
    refine ⟨h [] a as rfl, ih fun p b q he => ?_⟩
    subst he
    exact h (a :: p) b q rfl

theorem split {a : Act} (h : Along P w (as ++ a :: bs)) : P (w.after as) a := (append.mp h).2.1

end Along

abbrev World.CanRun (w : World) (as : List Act) : Prop := Along (fun v a => a.IsPossible v) w as

theorem Step.of_act {w : World} {a : Act} (possible : a.IsPossible w)
    (hub : ∀ l m, a ≠ .inbound l m) : Step w (w.act a) := by
  cases a with
  | command c => exact .command c possible
  | turn t => exact .turn t possible
  | fire due => exact .fire due possible
  | clock wall => exact .clock wall
  | inbound l m => exact absurd rfl (hub l m)

theorem Step.exists_act {w v : World} (h : Step w v) :
    ∃ a : Act, a.IsPossible w ∧ (∀ l m, a ≠ .inbound l m) ∧ v = w.act a := by
  cases h with
  | command c allowed => exact ⟨.command c, allowed, by simp, rfl⟩
  | turn t ready => exact ⟨.turn t, ready, by simp, rfl⟩
  | fire due next => exact ⟨.fire due, next, by simp, rfl⟩
  | clock wall => exact ⟨.clock wall, trivial, by simp, rfl⟩

/-- The possible futures of a world are what runs lead to that let nothing in past the hub. -/
theorem reaches_iff {w v : World} :
    Reaches w v ↔ ∃ as, w.CanRun as ∧ Along (fun _ a => ∀ l m, a ≠ .inbound l m) w as ∧
      v = w.after as := by
  constructor
  · intro h
    induction h with
    | refl => exact ⟨[], trivial, trivial, rfl⟩
    | tail _ last ih =>
      obtain ⟨as, hp, hh, rfl⟩ := ih
      obtain ⟨a, ha, hn, rfl⟩ := last.exists_act
      exact ⟨as ++ [a], Along.append.mpr ⟨hp, ha, trivial⟩, Along.append.mpr ⟨hh, hn, trivial⟩,
        by simp⟩
  · intro hx
    obtain ⟨as, hp, hh, rfl⟩ := hx
    induction as generalizing w with
    | nil => exact .refl
    | cons a as ih => exact (Reaches.single (.of_act hp.1 hh.1)).trans (ih hp.2 hh.2)

/-! ## The outset of an act -/

/-- What an act does at once, before any move: a command changes the world, a task comes into
being, or leaves the queue to take its turn. -/
inductive Outset (w : World) : Act → Option TaskId × World → Prop
  | take (t : TaskId) (j : Job) (ready : t ∈ w.ready)
      (task : w.tasks.get? t = some ⟨j, false⟩) :
    Outset w (.turn t) (some t, (w.without t).park t j)
  /-- A cancelled task is removed. -/
  | discard (t : TaskId) (j : Job) (ready : t ∈ w.ready)
      (task : w.tasks.get? t = some ⟨j, true⟩) :
    Outset w (.turn t) (none, w.without t)
  /-- A task that has ended leaves the queue. -/
  | stale (t : TaskId) (ready : t ∈ w.ready) (task : w.tasks.get? t = none) :
    Outset w (.turn t) (none, { w with ready := w.ready.erase t })
  | enter (o : Operation) (allowed : (World.Command.enter o).isAllowed w = true) :
    Outset w (.command (.enter o))
      (some w.tasks.next, { w with tasks := w.tasks.reserve.2 }.park w.tasks.next (.start o))
  | spawn (o : Operation) (allowed : (World.Command.spawn o).isAllowed w = true) :
    Outset w (.command (.spawn o)) (none, (w.spawn (.start o)).2)
  | inbound (l : Listener) (m : Message) :
    Outset w (.inbound l m) (none, (w.spawn (.deliver l m)).2)
  | addLink (address : Address) :
    Outset w (.command (.addLink address))
      (none, { w with links := (w.links.insert { address }).2 })
  | setFault (l : LinkId) (a : Action) (fault : Fault) :
    Outset w (.command (.setFault l a fault)) (none, w.setFault l a fault)
  | closeLink (l : LinkId) : Outset w (.command (.closeLink l)) (none, w.closeLink l)
  | addCaller (l : LinkId) (link : Link) (reports : Bool) (linked : w.links.get? l = some link) :
    Outset w (.command (.addCaller l reports))
      (none, { w with callers := (w.callers.insert (.onLink l link.address reports)).2 })
  | addServer (l : LinkId) (link : Link) (linked : w.links.get? l = some link) :
    Outset w (.command (.addServer l))
      (none, { w with servers := (w.servers.insert (.onLink l link.address)).2 })
  | hold (e : EngineId) (owned : w.isOwned e = true) :
    Outset w (.command (.hold e)) (none, w.hold e)
  | drop (e : EngineId) (side : World.Side) (owned : w.isOwned e = true) :
    Outset w (.command (.drop e side))
      (none, w.modifySeat (fun p => { p with handles := p.handles - 1 }) e)
  | invoke (i : CallerId) (method : Address) (payload : Option Payload) (options : CallOptions)
      (owned : w.isOwned (.caller i) = true) :
    Outset w (.command (.invoke i method payload options))
      (none, (w.invoke i method payload options).2)
  | unserve (s : ServerId) (v v' : Server) (method : Address) (h : Handler)
      (server : w.servers.get? s = some v) (unserved : v.unserve method h = .ok v') :
    Outset w (.command (.unserve s method h)) (none, w.modifyServer s fun _ => v')
  | fire (due : Nat) (next : w.nextDue = some due) : Outset w (.fire due) (none, w.fire due)
  | clock (wall : Nat) : Outset w (.clock wall) (none, { w with wall := wall })
  /-- A command that does nothing; one that starts an operation does something. -/
  | idle (c : World.Command) (same : w.obey c = w) (starts : ∀ o, c ≠ .enter o ∧ c ≠ .spawn o) :
    Outset w (.command c) (none, w)

/-- An engine may go away in an act: outside the runtime only one that an owner drops there. -/
def Act.mayPart (a : Act) (e : EngineId) (side : World.Side) : Prop :=
  side = .inside ∨ a = .command (.drop e side)

/-- Every possible act is an outset, the work of a task, and an engine that may go away. -/
theorem World.act_parts {w : World} {a : Act} (fresh : w.tasks.Fresh) (possible : a.IsPossible w) :
    ∃ b u, Outset w a b ∧ Works b (none, u) ∧ Parts a.mayPart u (w.act a) := by
  cases a with
  | turn t =>
    have inside : ∀ e, (Act.turn t).mayPart e .inside := fun _ => .inl rfl
    cases ht : w.tasks.get? t with
    | none =>
      refine ⟨_, _, .stale t possible ht, .refl, ?_⟩
      simp only [act, run, ht]
      exact .stays
    | some task =>
      obtain ⟨j, cancelled⟩ := task
      cases cancelled with
      | true => exact ⟨_, _, .discard t j possible ht, .refl, cancelled_parts inside ht⟩
      | false =>
        obtain ⟨u, works, parts⟩ := run_parts inside fresh ht
        exact ⟨_, u, .take t j possible ht, works, parts⟩
  | fire due => exact ⟨_, _, .fire due possible, .refl, .stays⟩
  | clock wall => exact ⟨_, _, .clock wall, .refl, .stays⟩
  | inbound l m => exact ⟨_, _, .inbound l m, .refl, .stays⟩
  | command c =>
    have owned : ∀ e, c.engine? = some e → w.isOwned e = true := by
      intro e he
      simpa [Act.IsPossible, World.Command.isAllowed, he] using possible
    have idle : w.obey c = w → (∀ o, c ≠ .enter o ∧ c ≠ .spawn o) → ∃ b u,
        Outset w (.command c) b ∧ Works b (none, u) ∧
          Parts (Act.command c).mayPart u (w.act (.command c)) :=
      fun same starts => ⟨_, w, .idle c same starts, .refl, by rw [act, same]; exact .stays⟩
    cases c with
    | addLink address => exact ⟨_, _, .addLink address, .refl, .stays⟩
    | setFault l a fault => exact ⟨_, _, .setFault l a fault, .refl, .stays⟩
    | closeLink l => exact ⟨_, _, .closeLink l, .refl, .stays⟩
    | addCaller l reports =>
      cases hl : w.links.get? l with
      | none => exact idle (by simp [obey, World.addCaller, hl]) (by simp)
      | some link =>
        refine ⟨_, _, .addCaller l link reports hl, .refl, ?_⟩
        simp only [act, obey, World.addCaller, hl]
        exact .stays
    | addServer l =>
      cases hl : w.links.get? l with
      | none => exact idle (by simp [obey, World.addServer, hl]) (by simp)
      | some link =>
        refine ⟨_, _, .addServer l link hl, .refl, ?_⟩
        simp only [act, obey, World.addServer, hl]
        exact .stays
    | hold e => exact ⟨_, _, .hold e (owned e rfl), .refl, .stays⟩
    | drop e side =>
      exact ⟨_, _, .drop e side (owned e rfl), .refl, release_parts _ (.inr rfl)⟩
    | invoke i method payload options =>
      exact ⟨_, _, .invoke i method payload options (owned _ rfl), .refl, .stays⟩
    | unserve s method h =>
      cases hs : w.servers.get? s with
      | none => exact idle (by simp [obey, World.unserve, hs]) (by simp)
      | some v =>
        cases hu : v.unserve method h with
        | error e => exact idle (by simp [obey, World.unserve, hs, hu]) (by simp)
        | ok v' =>
          refine ⟨_, _, .unserve s v v' method h hs hu, .refl, ?_⟩
          simp only [act, obey, World.unserve, hs, hu]
          exact .stays
    | enter o => exact ⟨_, _, .enter o possible, enter_moves fresh o, .stays⟩
    | spawn o => exact ⟨_, _, .spawn o possible, .refl, .stays⟩

/-- So it is an outset and moves. -/
theorem World.act_moves {w : World} {a : Act} (fresh : w.tasks.Fresh) (possible : a.IsPossible w) :
    ∃ b, Outset w a b ∧ Moves b (none, w.act a) := by
  obtain ⟨b, u, ho, works, parts⟩ := act_parts fresh possible
  exact ⟨b, ho, works.moves.trans parts.moves⟩

/-- Nothing stands under a key that was not given out. -/
structure World.Tidy (w : World) : Prop where
  tasks : w.tasks.Fresh
  calls : w.calls.Fresh
  callers : w.callers.Fresh
  servers : w.servers.Fresh
  links : w.links.Fresh

namespace World.Tidy

variable {w v : World} {t : TaskId} {j : Job}

theorem new (h : w.IsNew) : w.Tidy := by
  obtain ⟨wall, ids, rfl⟩ := h
  exact ⟨Table.fresh_empty, Table.fresh_empty, Table.fresh_empty, Table.fresh_empty,
    Table.fresh_empty⟩

theorem lt (h : (w.park t j).Tidy) : t < w.tasks.next :=
  h.tasks.lt (a := ⟨j, false⟩) (by simp)

theorem unpark (h : (w.park t j).Tidy) : w.Tidy := by
  refine ⟨fun k hk => ?_, h.calls, h.callers, h.servers, h.links⟩
  have hp := h.tasks k hk
  simp only [park_keeps, Table.get?_set] at hp
  split at hp
  · cases hp
  · exact hp

theorem park (h : w.Tidy) (ht : t < w.tasks.next) (j : Job) : (w.park t j).Tidy :=
  ⟨h.tasks.set ht _, h.calls, h.callers, h.servers, h.links⟩

theorem sleep (h : w.Tidy) (ht : t < w.tasks.next) (ms : Nat) (j : Job) :
    (w.sleep t ms j).Tidy :=
  ⟨h.tasks.set ht _, h.calls, h.callers, h.servers, h.links⟩

theorem without (h : w.Tidy) (t : TaskId) : (w.without t).Tidy :=
  ⟨h.tasks.erase t, h.calls, h.callers, h.servers, h.links⟩

theorem withHub (h : w.Tidy) (hub : Hub) : { w with hub := hub }.Tidy :=
  ⟨h.tasks, h.calls, h.callers, h.servers, h.links⟩

theorem setCall (h : w.Tidy) {k : CallId} (hk : k < w.calls.next) (call : Call) :
    { w with calls := w.calls.set k call }.Tidy :=
  ⟨h.tasks, h.calls.set hk _, h.callers, h.servers, h.links⟩

theorem reserve (h : w.Tidy) : { w with tasks := w.tasks.reserve.2 }.Tidy :=
  ⟨h.tasks.reserve, h.calls, h.callers, h.servers, h.links⟩

theorem of_same (h : w.Tidy) (tasks : v.tasks = w.tasks) (calls : v.calls = w.calls)
    (callers : v.callers = w.callers) (servers : v.servers = w.servers)
    (links : v.links = w.links) : v.Tidy :=
  ⟨tasks ▸ h.tasks, calls ▸ h.calls, callers ▸ h.callers, servers ▸ h.servers, links ▸ h.links⟩

theorem recordAll (h : w.Tidy) (es : List Event) : (w.recordAll es).Tidy :=
  h.of_same (by simp) (by simp) (by simp) (by simp) (by simp)

theorem record (h : w.Tidy) (e : Event) : (w.record e).Tidy := h.recordAll [e]

theorem mint (h : w.Tidy) : w.mint.2.Tidy := h.of_same rfl rfl rfl rfl rfl

theorem spawn (h : w.Tidy) (j : Job) : (w.spawn j).2.Tidy :=
  ⟨h.tasks.insert _, h.calls, h.callers, h.servers, h.links⟩

theorem proceed (h : w.Tidy) (ht : t < w.tasks.next) (es : List Event) (next : Option Job) :
    (w.proceed t es next).Tidy := by
  cases next with
  | none => exact h.recordAll es
  | some j => exact (h.recordAll es).park (by simpa using ht) j

theorem modifySeat (h : w.Tidy) (f : Seat → Seat) (e : EngineId) : (w.modifySeat f e).Tidy := by
  cases e with
  | caller i => exact ⟨h.tasks, h.calls, h.callers.modify i _, h.servers, h.links⟩
  | server s => exact ⟨h.tasks, h.calls, h.callers, h.servers.modify s _, h.links⟩

theorem modifyServer (h : w.Tidy) (s : ServerId) (f : Server → Server) :
    (w.modifyServer s f).Tidy :=
  ⟨h.tasks, h.calls, h.callers, h.servers.modify s _, h.links⟩

theorem settleCell (h : w.Tidy) (e : EngineId) (r : Except Status Unit) :
    (w.settleCell e r).Tidy := by
  rcases settleCell_eq w e r with he | ⟨cell, ts, he⟩
  · rw [he]; exact h
  · rw [he]
    exact (h.modifySeat (fun p => { p with cell := cell }) e).of_same (by simp) (by simp) (by simp)
      (by simp) (by simp)

theorem complete (h : w.Tidy) (i : CallerId) (id : MessageId) (cause : Cause) :
    (w.complete i id cause).Tidy := by
  have hf := Fresh.complete (w := w) i id cause
  exact ⟨hf.2.1 h.tasks, hf.1 h.calls, hf.2.2 h.callers, by simpa using h.servers,
    by simpa using h.links⟩

theorem accept (h : w.Tidy) (i : CallerId) (m : Message) (id : MessageId) (timeout : Duration) :
    (w.accept i m id timeout).2.Tidy := by
  refine ⟨?_, ?_, ?_, by simpa using h.servers, by simpa using h.links⟩
  · simpa using (h.tasks.insert _).insert _
  · simpa using h.calls.insert _
  · simpa using h.callers.modify i _

theorem invoke (h : w.Tidy) (i : CallerId) (method : Address) (payload : Option Payload)
    (options : CallOptions) :
    (w.invoke i method payload options).2.Tidy ∧
      w.tasks.next ≤ (w.invoke i method payload options).2.tasks.next := by
  rcases invoke_cases w i method payload options with ⟨e, he⟩ | ⟨e, he⟩ | ⟨c, m, _, _, _, _, he⟩
  · rw [he]; exact ⟨h, Nat.le_refl _⟩
  · rw [he]; exact ⟨h.mint, Nat.le_refl _⟩
  · rw [he]
    exact ⟨h.mint.accept .., by simp; omega⟩

theorem broadcast (h : w.Tidy) (m : Message) : (w.broadcast m).Tidy := by
  have hb := broadcast_spawns w m (w.hub.recipients m) h.tasks
  exact ⟨hb.1, by simpa using h.calls, by simpa using h.callers, by simpa using h.servers,
    by simpa using h.links⟩

theorem remove (h : w.Tidy) (e : EngineId) (p : Seat) (side : Side) :
    (w.remove e p side).Tidy := by
  refine ⟨?_, Fresh.remove h.calls e p side, fun i hi => ?_, fun s hs => ?_, by simpa using h.links⟩
  · rcases remove_tasks w e p side with ⟨-, -, -, tasks⟩ | tasks <;> rw [tasks]
    · exact h.tasks.insert _
    · exact h.tasks
  · rw [remove_callers, h.callers i (by simpa using hi)]
    simp
  · rw [remove_servers, h.servers s (by simpa using hs)]
    simp

theorem move {a b : Option TaskId × World} (hm : Move a b) (h : a.2.Tidy) : b.2.Tidy := by
  cases hm with
  | remove seat unowned alive unheld => exact h.remove ..
  | pass free passes => exact h.unpark.proceed h.lt ..
  | doze free dozes => exact h.unpark.sleep h.lt ..
  | rest free => exact h.unpark.sleep h.lt ..
  | arm free => exact h.unpark.sleep h.lt ..
  | expire free => exact h.unpark.complete ..
  | answered free caller alive answers =>
    exact ((h.unpark.record _).complete ..).recordAll _
  | reply free server replies finish =>
    exact (((h.unpark.recordAll _).mint.record _).record _).park (by simpa using h.lt) _
  | mute free server replies finish => exact (h.unpark.recordAll _).mint
  | claim free seat vacant => exact (h.unpark.modifySeat ..).park (by simpa using h.lt) _
  | wait free seat attempting =>
    exact (h.unpark.modifySeat ..).park (by simpa using h.lt) _
  | enrol free registration =>
    exact (((h.unpark.withHub _).record _).settleCell ..).proceed (by simpa using h.lt) ..
  | failRequest free refusal => exact ((h.unpark.record _).settleCell ..).complete ..
  | failServe free refusal =>
    exact (((h.unpark.record _).settleCell ..).modifyServer ..).record _
  | enlist free registration => exact (h.unpark.withHub _).record _
  | unlist free unregistration => exact (h.unpark.withHub _).recordAll _
  | refuse free refusal => exact h.unpark.complete ..
  | broadcast free accepted => exact (h.unpark.broadcast _).recordAll _
  | await free place pending =>
    exact (h.unpark.setCall (h.unpark.calls.lt place) _).park h.lt _
  | addHandler free server vacant =>
    exact (h.unpark.modifyServer ..).park h.lt _
  | closeListening free seat opened registered =>
    exact (h.unpark.modifySeat ..).park (by simpa using h.lt) _
  | closeDeaf free seat opened unregistered =>
    exact (h.unpark.modifySeat ..).record _
  | post free posting linked onTopic finish =>
    exact (h.unpark.mint.record _).park h.lt _
  | postInvalid free posting linked onTopic finish => exact h.unpark.mint.record _
  | @call w v t i method payload options accepted free invoked =>
    have hi := h.unpark.invoke i method payload options
    rw [invoked] at hi
    exact hi.1.park (Nat.lt_of_lt_of_le h.lt hi.2) _
  | @callRefused w v t i method payload options e free invoked =>
    have hi := h.unpark.invoke i method payload options
    rw [invoked] at hi
    exact hi.1.record _

theorem outset {a : Act} {b : Option TaskId × World} (ho : Outset w a b) (h : w.Tidy) :
    b.2.Tidy := by
  cases ho with
  | take t j ready task => exact (h.without _).park (h.tasks.lt task) _
  | discard t j ready task => exact h.without _
  | stale t ready task => exact h.of_same rfl rfl rfl rfl rfl
  | enter o allowed =>
    exact h.reserve.park (Nat.lt_succ_self w.tasks.next) _
  | spawn o allowed => exact h.spawn _
  | inbound l m => exact h.spawn _
  | addLink address => exact ⟨h.tasks, h.calls, h.callers, h.servers, h.links.insert _⟩
  | setFault l a fault => exact ⟨h.tasks, h.calls, h.callers, h.servers, h.links.modify l _⟩
  | closeLink l => exact ⟨h.tasks, h.calls, h.callers, h.servers, h.links.modify l _⟩
  | addCaller l link reports linked =>
    exact ⟨h.tasks, h.calls, h.callers.insert _, h.servers, h.links⟩
  | addServer l link linked => exact ⟨h.tasks, h.calls, h.callers, h.servers.insert _, h.links⟩
  | hold e owned =>
    simp only [World.hold]
    exact modifySeat h _ e
  | drop e side owned =>
    dsimp only
    exact modifySeat h _ e
  | invoke i method payload options owned => exact (h.invoke ..).1
  | unserve s v v' method hd server unserved => exact h.modifyServer ..
  | fire due next =>
    refine h.of_same ?_ ?_ ?_ ?_ ?_ <;> simp [World.fire]
  | clock wall => exact h.of_same rfl rfl rfl rfl rfl
  | idle c same starts => exact h

end World.Tidy

/-! ## What a run keeps -/

/-- The property is kept by every move, and by the outset of every act of which something is
known. Between two acts no task is running. -/
structure Kept (Q : World → Act → Prop) (P : Option TaskId × World → Prop) : Prop where
  outset {w : World} {a : Act} {b : Option TaskId × World} (tidy : w.Tidy) (h : Outset w a b)
    (known : Q w a) (before : P (none, w)) : P b
  move {a b : Option TaskId × World} (tidy : a.2.Tidy) (h : Move a b) (before : P a) : P b

namespace Kept

variable {Q : World → Act → Prop} {P R : Option TaskId × World → Prop} {w : World}

theorem moves (h : Kept Q P) {a b : Option TaskId × World} (hm : Moves a b) (tidy : a.2.Tidy)
    (before : P a) : b.2.Tidy ∧ P b := by
  induction hm with
  | refl => exact ⟨tidy, before⟩
  | tail _ last ih => exact ⟨ih.1.move last, h.move ih.1 last ih.2⟩

/-- One act keeps what its outset and all moves keep. -/
theorem act (h : Kept Q P) {a : Act} (possible : a.IsPossible w) (known : Q w a) (tidy : w.Tidy)
    (before : P (none, w)) : (w.act a).Tidy ∧ P (none, w.act a) := by
  obtain ⟨b, ho, hm⟩ := World.act_moves tidy.tasks possible
  exact h.moves hm (tidy.outset ho) (h.outset tidy ho known before)

/-- **What the outset of an act and every move keep holds after a run.** -/
theorem run (h : Kept Q P) {as : List Act} (run : w.CanRun as) (known : Along Q w as)
    (tidy : w.Tidy) (before : P (none, w)) : (w.after as).Tidy ∧ P (none, w.after as) := by
  induction as generalizing w with
  | nil => exact ⟨tidy, before⟩
  | cons a as ih =>
    have ha := h.act run.1 known.1 tidy before
    exact ih run.2 known.2 ha.1 ha.2

theorem mono {Q' : World → Act → Prop} (h : Kept Q P) (imp : ∀ w a, Q' w a → Q w a) : Kept Q' P :=
  ⟨fun tidy ho known => h.outset tidy ho (imp _ _ known), h.move⟩

/-- A property that is kept together with another one that is kept without it. -/
theorem add (h : Kept Q P)
    (outset : ∀ {w a b}, w.Tidy → Outset w a b → Q w a → P (none, w) → P b → R (none, w) → R b)
    (move : ∀ {a b}, a.2.Tidy → Move a b → P a → P b → R a → R b) :
    Kept Q fun a => P a ∧ R a where
  outset tidy ho known before :=
    have hp := h.outset tidy ho known before.1
    ⟨hp, outset tidy ho known before.1 hp before.2⟩
  move tidy hm before :=
    have hp := h.move tidy hm before.1
    ⟨hp, move tidy hm before.1 hp before.2⟩

end Kept

/-! ## What only grows -/

/-- The second seat is what may become of the first: an engine keeps its place, is closed for good
and gone for good. -/
structure Seat.Grows (p q : Seat) : Prop where
  link : q.link = p.link
  entity : q.entity = p.entity
  sink : q.sink = p.sink
  closed : p.closed = true → q.closed = true
  gone : p.gone = true → q.gone = true

theorem Seat.Grows.refl (p : Seat) : p.Grows p := ⟨rfl, rfl, rfl, id, id⟩

theorem Seat.Grows.trans {p q r : Seat} (h : p.Grows q) (h' : q.Grows r) : p.Grows r :=
  ⟨h'.link.trans h.link, h'.entity.trans h.entity, h'.sink.trans h.sink,
    fun closed => h'.closed (h.closed closed), fun gone => h'.gone (h.gone gone)⟩

/-- The second world is a later one: it has issued no fewer ids, forgotten no event and lost no
engine. -/
structure World.Grows (w v : World) : Prop where
  issue : v.ids.issue = w.ids.issue
  issued : w.ids.issued ≤ v.ids.issued
  events : w.events <:+ v.events
  seats : ∀ e p, w.seat? e = some p → ∃ q, v.seat? e = some q ∧ p.Grows q

namespace World.Grows

variable {w v u : World}

theorem of_same (ids : v.ids = w.ids) (events : v.events = w.events)
    (seats : ∀ e, v.seat? e = w.seat? e) : w.Grows v :=
  ⟨by rw [ids], Nat.le_of_eq (by rw [ids]), events ▸ List.suffix_refl _,
    fun e p hp => ⟨p, (seats e).trans hp, .refl p⟩⟩

theorem refl (w : World) : w.Grows w := .of_same rfl rfl fun _ => rfl

theorem park (w : World) (t : TaskId) (j : Job) : w.Grows (w.park t j) :=
  .of_same rfl rfl fun e => park_seat? w t j e

theorem unpark (w : World) (t : TaskId) (j : Job) : (w.park t j).Grows w :=
  .of_same rfl rfl fun e => (park_seat? w t j e).symm

theorem trans (h : w.Grows v) (h' : v.Grows u) : w.Grows u := by
  refine ⟨h'.issue.trans h.issue, Nat.le_trans h.issued h'.issued, h.events.trans h'.events,
    fun e p hp => ?_⟩
  obtain ⟨q, hq, hpq⟩ := h.seats e p hp
  obtain ⟨r, hr, hqr⟩ := h'.seats e q hq
  exact ⟨r, hr, hpq.trans hqr⟩

theorem seats_of_same (h : ∀ e, v.seat? e = w.seat? e) :
    ∀ e p, w.seat? e = some p → ∃ q, v.seat? e = some q ∧ Seat.Grows p q :=
  fun e p hp => ⟨p, (h e).trans hp, .refl p⟩

theorem seats_of_map {e : EngineId} {f : Seat → Seat}
    (h : ∀ e', v.seat? e' = if e = e' then (w.seat? e').map f else w.seat? e')
    (hf : ∀ p : Seat, p.Grows (f p)) :
    ∀ e' p, w.seat? e' = some p → ∃ q, v.seat? e' = some q ∧ p.Grows q := by
  intro e' p hp
  rw [h e', hp]
  split
  · exact ⟨f p, rfl, hf p⟩
  · exact ⟨p, rfl, .refl p⟩

theorem invoke (w : World) (i : CallerId) (method : Address) (payload : Option Payload)
    (options : CallOptions) : w.Grows (w.invoke i method payload options).2 := by
  rcases invoke_cases w i method payload options with ⟨e, he⟩ | ⟨e, he⟩ | ⟨c, m, _, _, _, _, he⟩
  · rw [he]
    exact .refl w
  · rw [he]
    exact ⟨rfl, Nat.le_succ _, List.suffix_refl _, seats_of_same fun _ => rfl⟩
  · rw [he]
    exact ⟨rfl, Nat.le_succ _, List.suffix_cons .., seats_of_same fun e => accept_seat? ..⟩

end World.Grows

theorem Seat.Grows.cell (p : Seat) (cell : Cell) : p.Grows { p with cell := cell } :=
  ⟨rfl, rfl, rfl, id, id⟩

open World World.Grows in
theorem Move.seats {a b : Option TaskId × World} (h : Move a b) :
    ∀ e p, a.2.seat? e = some p → ∃ q, b.2.seat? e = some q ∧ p.Grows q := by
  have settled : ∀ (w : World) (e' : EngineId) (r : Except Status Unit) (e : EngineId) (p : Seat),
      w.seat? e = some p → ∃ q, (w.settleCell e' r).seat? e = some q ∧ p.Grows q := by
    intro w e' r e p hp
    obtain ⟨cell, hq⟩ := settleCell_seat? w e' r hp
    exact ⟨_, hq, .cell p cell⟩
  cases h with
  | remove seat unowned alive unheld =>
    exact seats_of_map (remove_seat? _ _ _ _) fun p => ⟨rfl, rfl, rfl, id, fun _ => rfl⟩
  | expire free => exact seats_of_same fun e => complete_seat? ..
  | answered free caller alive answers =>
    exact seats_of_same fun e => by simp
  | claim free seat vacant =>
    exact seats_of_map (fun e => modifySeat_seat? ..) fun p => .cell p _
  | wait free seat attempting =>
    exact seats_of_map (fun e => modifySeat_seat? ..) fun p => .cell p _
  | @enrol w t r u hub free registration =>
    intro e p hp
    obtain ⟨q, hq, hg⟩ := settled ({ w with hub := hub }.record (.attempted u.engine (.ok ())))
      u.engine (.ok ()) e p hp
    exact ⟨q, (seat?_congr (by simp) (by simp) e).trans hq, hg⟩
  | failRequest free refusal =>
    intro e p hp
    rename_i w t r i id m s
    obtain ⟨q, hq, hg⟩ := settled (w.record (.attempted (.caller i) (.error s))) (.caller i)
      (.error s) e p hp
    exact ⟨q, (complete_seat? ..).trans hq, hg⟩
  | failServe free refusal =>
    intro e p hp
    rename_i w t r sv method h s
    obtain ⟨q, hq, hg⟩ := settled (w.record (.attempted (.server sv) (.error s))) (.server sv)
      (.error s) e p hp
    refine ⟨q, ?_, hg⟩
    exact (modifyServer_seat? _ _ (fun v _ => removeSame_seat ..) e).trans hq
  | refuse free refusal => exact seats_of_same fun e => complete_seat? ..
  | addHandler free server vacant =>
    rename_i w t s v method h
    exact seats_of_same fun e =>
      modifyServer_seat? w s (f := (·.addHandler method h)) (fun _ _ => rfl) e
  | closeListening free seat opened registered =>
    exact seats_of_map (fun e => modifySeat_seat? ..) fun p => ⟨rfl, rfl, rfl, fun _ => rfl, id⟩
  | closeDeaf free seat opened unregistered =>
    exact seats_of_map (fun e => modifySeat_seat? ..) fun p => ⟨rfl, rfl, rfl, fun _ => rfl, id⟩
  | @call w v t i method payload options accepted free invoked =>
    have hi := World.Grows.invoke w i method payload options
    rw [invoked] at hi
    exact hi.seats
  | @callRefused w v t i method payload options e free invoked =>
    have hi := World.Grows.invoke w i method payload options
    rw [invoked] at hi
    exact hi.seats
  | _ => exact seats_of_same fun e => seat?_congr (by simp) (by simp) e

open World in
theorem Move.grows {a b : Option TaskId × World} (h : Move a b) : a.2.Grows b.2 := by
  have hs := h.seats
  cases h with
  | @call w v t i method payload options accepted free invoked =>
    have hi := World.Grows.invoke w i method payload options
    rw [invoked] at hi
    exact ⟨hi.issue, hi.issued, hi.events, hs⟩
  | @callRefused w v t i method payload options e free invoked =>
    have hi := World.Grows.invoke w i method payload options
    rw [invoked] at hi
    exact ⟨hi.issue, hi.issued, hi.events.trans (List.suffix_cons ..), hs⟩
  | _ =>
    -- the other moves record one event after the other
    refine ⟨by simp, by simp, ?_, hs⟩
    simp only [recordAll_events, proceed_keeps, record_keeps, complete_keeps, settleCell_keeps,
      modifySeat_keeps, modifyServer_keeps, park_keeps, sleep_keeps, broadcast_keeps, mint_keeps,
      remove_keeps]
    repeat' first
      | exact List.suffix_refl _
      | refine List.IsSuffix.trans ?_ (List.suffix_cons ..)
      | refine List.IsSuffix.trans ?_ (List.suffix_append ..)

theorem Outset.grows {w : World} (tidy : w.Tidy) {a : Act} {b : Option TaskId × World}
    (h : Outset w a b) : w.Grows b.2 := by
  cases h with
  | addCaller l link reports linked =>
    refine ⟨rfl, Nat.le_refl _, List.suffix_refl _, fun e p hp => ⟨p, ?_, .refl p⟩⟩
    cases e with
    | server s => exact hp
    | caller i =>
      obtain ⟨c, hc, rfl⟩ := Option.map_eq_some_iff.mp hp
      simp [World.seat?, Nat.ne_of_lt (tidy.callers.lt hc), hc]
  | addServer l link linked =>
    refine ⟨rfl, Nat.le_refl _, List.suffix_refl _, fun e p hp => ⟨p, ?_, .refl p⟩⟩
    cases e with
    | caller i => exact hp
    | server s =>
      obtain ⟨v, hv, rfl⟩ := Option.map_eq_some_iff.mp hp
      simp [World.seat?, Nat.ne_of_lt (tidy.servers.lt hv), hv]
  | invoke i method payload options owned => exact .invoke ..
  | fire due next =>
    refine .of_same (by simp [World.fire]) (by simp [World.fire]) fun e => ?_
    exact World.seat?_congr (by simp [World.fire]) (by simp [World.fire]) e
  | hold e owned =>
    simp only [World.hold]
    refine ⟨by simp, by simp, by simp, ?_⟩
    exact World.Grows.seats_of_map (fun e => World.modifySeat_seat? ..)
      fun p => ⟨rfl, rfl, rfl, id, id⟩
  | drop e side owned =>
    refine ⟨by simp, by simp, by simp, ?_⟩
    exact World.Grows.seats_of_map (fun e => World.modifySeat_seat? ..)
      fun p => ⟨rfl, rfl, rfl, id, id⟩
  | unserve s v v' method hd server unserved =>
    refine .of_same rfl rfl fun e => World.modifyServer_seat? _ _ (fun u hu => ?_) e
    rw [server] at hu
    cases hu
    exact World.unserve_seat unserved
  | _ => exact .of_same rfl rfl fun _ => rfl

/-- The world after a run is a tidy one, and a later one. -/
theorem World.grows_after {w : World} {as : List Act} (tidy : w.Tidy) (run : w.CanRun as) :
    (w.after as).Tidy ∧ w.Grows (w.after as) := by
  have kept : Kept (fun _ _ => True) (fun a => w.Grows a.2) :=
    ⟨fun tidy ho _ h => h.trans (ho.grows tidy), fun _ hm h => h.trans hm.grows⟩
  have known : Along (fun _ _ => True) w as := run.mono fun _ _ _ => trivial
  exact kept.run run known tidy (.refl w)

theorem World.grows_act {w : World} {a : Act} (tidy : w.Tidy) (possible : a.IsPossible w) :
    (w.act a).Tidy ∧ w.Grows (w.act a) :=
  World.grows_after tidy (show w.CanRun [a] from ⟨possible, trivial⟩)

end Switchboard
