import Switchboard.Proofs.Deliveries
import Switchboard.Proofs.Listening

/-! # What attempts come to

An engine asks its link for a listener of its own when it first needs one, and again after each
failure, so its attempts are failures and then, once the listener is registered, one success and
nothing more (`attempts_after`). An act in which an attempt fails is taken up by it: the task whose
turn it is tells of the failure whoever asked for the listener, and nothing else happens
(`World.failed_act`).
-/

namespace Switchboard

open World

/-- How an attempt to register the engine's listener has ended, if the event says so. -/
def Event.attempt? (e : EngineId) : Event → Option (Except Status Unit)
  | .attempted e' r => if e' = e then some r else none
  | _ => none

/-- The use for which the task asks, or is about to ask, for an engine's own listener. -/
def Job.seeks? : Job → Option Use
  | .start (.serve s method h) => some (.serve s method h)
  | j => j.use?

/-- What a failed attempt tells the one who has made it. -/
def Use.refusal (t : TaskId) (s : Status) : Use → Event
  | .request i id _ => .ended i id (.refused s)
  | .serve _ _ _ => .finished t (.error (.failure (.transport s)))

theorem Job.seeks_of_use {j : Job} {u : Use} (h : j.use? = some u) : j.seeks? = some u := by
  cases j with
  | start o => cases h
  | _ => exact h

theorem Job.use_of_registers {j : Job} {u : Use} (h : j.registers? = some u) : j.use? = some u := by
  cases j with
  | register l source sink listener after => cases after <;> simp_all [registers?, use?]
  | _ => cases h

theorem Event.attempt?_eq_some {e : EngineId} {x : Event} {r : Except Status Unit} :
    x.attempt? e = some r ↔ x = .attempted e r := by
  cases x with
  | attempted e' r' => by_cases own : e' = e <;> simp [attempt?, own]
  | _ => simp [attempt?]

theorem Event.mem_attempt? {es : List Event} {e : EngineId} {r : Except Status Unit} :
    r ∈ es.filterMap (Event.attempt? e) ↔ .attempted e r ∈ es := by
  simp [List.mem_filterMap, attempt?_eq_some]

namespace World

/-- How the attempts to register an engine's listener have ended, the earliest first. -/
abbrev attempts (w : World) (e : EngineId) : List (Except Status Unit) := w.seen (Event.attempt? e)

theorem onward_attempts (w : World) (t : TaskId) (u : Use) (e : EngineId) :
    (w.onward t u).1.filterMap (Event.attempt? e) = [] := by
  cases u with
  | request i id m =>
    simp only [onward]
    split <;> rfl
  | serve s method h => rfl

end World

theorem Passes.registers? {w : World} {t : TaskId} {j : Job} {es : List Event} {next : Option Job}
    (h : Passes w t j es next) : j.registers? = none := by
  cases h with
  | seatless u j job seat => rcases job with rfl | rfl <;> rfl
  | _ => rfl

theorem Passes.attempts {w : World} {t : TaskId} {j : Job} {es : List Event} {next : Option Job}
    (h : Passes w t j es next) (e : EngineId) : es.filterMap (Event.attempt? e) = [] := by
  cases h with
  | unexpected i c m caller alive unasked => cases c.reportsUnexpected <;> rfl
  | useAtOnce u registered => exact w.onward_attempts t u e
  | use u registered => exact w.onward_attempts t u e
  | sendRefused l m after s refusal other => cases after <;> rfl
  | unregisterRefused l source sink listener after s refusal => cases after <;> rfl
  | _ => rfl

/-- What a move adds to the attempts of an engine, and makes of its cell. -/
inductive Tried (a b : Option TaskId × World) (e : EngineId) : Prop
  | none (attempts : b.2.attempts e = a.2.attempts e)
      (cell : b.2.cell? e = some .registered → a.2.cell? e = some .registered)
  | success (t : TaskId) (j : Job) (u : Use) (runs : a.1 = some t)
      (task : a.2.tasks.get? t = some ⟨j, false⟩) (registers : j.registers? = some u)
      (own : u.engine = e) (attempts : b.2.attempts e = a.2.attempts e ++ [.ok ()])
      (cell : ∀ ws, a.2.cell? e = some (.attempting ws) → b.2.cell? e = some .registered)
  | failure (t : TaskId) (j : Job) (u : Use) (s : Status) (runs : a.1 = some t)
      (task : a.2.tasks.get? t = some ⟨j, false⟩) (registers : j.registers? = some u)
      (own : u.engine = e) (attempts : b.2.attempts e = a.2.attempts e ++ [.error s])
      (cell : b.2.cell? e = some .registered → a.2.cell? e = some .registered) (idle : b.1 = none)
      (events : b.2.events = (a.2.now, u.refusal t s) ::
        (a.2.now, .attempted u.engine (.error s)) :: a.2.events)

theorem World.registered_of_settleCell {w : World} {e e' : EngineId} {s : Status}
    (h : (w.settleCell e' (.error s)).cell? e = some .registered) :
    w.cell? e = some .registered := by
  obtain ⟨q, seat, cell⟩ := Option.map_eq_some_iff.mp h
  obtain ⟨p, c, before, rfl, kept⟩ := settleCell_seat seat
  rcases kept cell with registered | ⟨-, failed⟩
  · rw [World.cell?, before]
    exact congrArg some registered
  · cases failed

/-- Whoever is refused a listener has made an attempt at this one. -/
theorem World.tried_of_refusal {w v : World} {t : TaskId} {r : Registration} {u : Use}
    {s : Status} (e : EngineId)
    (events : v.events =
      (w.now, u.refusal t s) :: (w.now, .attempted u.engine (.error s)) :: w.events)
    (seats : v.seat? e =
      ((w.record (.attempted u.engine (.error s))).settleCell u.engine (.error s)).seat? e) :
    Tried (some t, w.park t (.register r.owner r.source r.sink r.listener (.use u)))
      (none, v) e := by
  have cell : v.cell? e = some .registered → (w.park t
      (.register r.owner r.source r.sink r.listener (.use u))).cell? e = some .registered := by
    intro registered
    rw [cell?_congr seats] at registered
    exact registered_of_settleCell (w := w.record (.attempted u.engine (.error s))) registered
  have attempts : v.attempts e =
      w.attempts e ++ ((Event.attempted u.engine (.error s)).attempt? e).toList := by
    have told : v.events = [(w.now, u.refusal t s)] ++
        (w.record (.attempted u.engine (.error s))).events := events
    rw [attempts, seen_append told, record_seen]
    cases u <;> exact List.append_nil _
  by_cases own : u.engine = e
  · refine .failure t _ u s rfl (park_self ..) rfl own ?_ cell rfl events
    simpa [Event.attempt?, own] using attempts
  · exact .none (by simpa [Event.attempt?, own] using attempts) cell

/-- Whoever registers a listener has made an attempt at this one. -/
theorem World.tried_of_success {w v : World} {t : TaskId} {r : Registration} {u : Use}
    {next : Option TaskId} (hub : Hub) (e : EngineId)
    (attempts : v.attempts e =
      w.attempts e ++ ((Event.attempted u.engine (.ok ())).attempt? e).toList)
    (seats : v.seat? e = (({ w with hub := hub }.record
      (.attempted u.engine (.ok ()))).settleCell u.engine (.ok ())).seat? e) :
    Tried (some t, w.park t (.register r.owner r.source r.sink r.listener (.use u)))
      (next, v) e := by
  let v' := { w with hub := hub }.record (.attempted u.engine (.ok ()))
  have before : v'.cell? e = (w.park t
      (.register r.owner r.source r.sink r.listener (.use u))).cell? e := rfl
  by_cases own : u.engine = e
  · refine .success t _ u rfl (park_self ..) rfl own ?_ fun ws attempting => ?_
    · simpa [Event.attempt?, own] using attempts
    · subst own
      exact (cell?_congr seats).trans (cell?_settleCell_ok ws (before.trans attempting))
  · refine .none (by simpa [Event.attempt?, own] using attempts) fun registered => ?_
    rcases cell?_settleCell v' u.engine e (.ok ()) with same | ⟨same, -⟩
    · rw [← before, ← same, ← cell?_congr seats]
      exact registered
    · exact absurd same own

/-- Whoever does not register a listener makes no attempt. -/
theorem Move.untried {a b : Option TaskId × World} (hm : Move a b) (e : EngineId)
    (other : ∀ (w : World) (t : TaskId) (j : Job), a = (some t, w.park t j) →
      j.registers? = none) : b.2.attempts e = a.2.attempts e := by
  cases hm with
  | remove seat unowned alive unheld => exact seen_congr (by simp)
  | pass free passes => simp [passes.attempts e]
  | doze free dozes => rfl
  | rest free => rfl
  | arm free => rfl
  | await free place pending => rfl
  | enrol free registration => cases other _ _ _ rfl
  | failRequest free refusal => cases other _ _ _ rfl
  | failServe free refusal => cases other _ _ _ rfl
  | reply free server replies finish => cases replies <;> simp [Event.attempt?]
  | mute free server replies finish => cases replies <;> simp [Event.attempt?]
  | @call w v t i method payload options accepted free invoked =>
    have made := invoke_seen w (f := Event.attempt? e) (fun _ _ _ => rfl) i method payload options
    rw [invoked] at made
    simpa using made
  | @callRefused w v t i method payload options e' free invoked =>
    have made := invoke_seen w (f := Event.attempt? e) (fun _ _ _ => rfl) i method payload options
    rw [invoked] at made
    simpa [Event.attempt?] using made
  | answered free caller alive answers => split <;> simp [Event.attempt?]
  | @unlist w t l source sink listener after hub free unregistration =>
    cases after <;> simp [AfterUnregister.events, Event.attempt?]
  | @broadcast w t l m after free accepted =>
    cases after <;> simp [AfterSend.events, Event.attempt?]
  | _ => simp [Event.attempt?]

theorem Move.tried_of_idle {a b : Option TaskId × World} (hm : Move a b) (e : EngineId)
    (other : ∀ (w : World) (t : TaskId) (j : Job), a = (some t, w.park t j) →
      j.registers? = none) : Tried a b e := by
  refine .none (hm.untried e other) fun registered => ?_
  obtain ⟨q, seat, cell⟩ := Option.map_eq_some_iff.mp registered
  obtain ⟨p, before, moved⟩ := hm.seat seat
  rcases moved.registered cell with kept | ⟨w, t, r, u, hub, ha, -⟩
  · rw [World.cell?, before]
    exact congrArg some kept
  · cases other w t _ ha

theorem Move.tried {a b : Option TaskId × World} (hm : Move a b) (e : EngineId) : Tried a b e := by
  have whole := hm
  cases hm with
  | remove seat unowned alive unheld => exact whole.tried_of_idle e fun _ _ _ ha => by cases ha
  | pass free passes =>
    exact whole.tried_of_idle e fun _ _ _ ha => (running_inj ha).2 ▸ passes.registers?
  | doze free dozes => exact .none rfl fun registered => registered
  | @enrol w t r u hub free registration =>
    exact tried_of_success hub e (by simp [onward_attempts]) (seat?_congr (by simp) (by simp) e)
  | @failRequest w t r i id m s free refusal =>
    refine tried_of_refusal (u := .request i id m) (s := s) (t := t) e ?_ (complete_seat? ..)
    simp [Use.refusal, Use.engine]
  | @failServe w t r sv method h s free refusal =>
    refine tried_of_refusal (u := .serve sv method h) (s := s) (t := t) e ?_
      ((record_seat? ..).trans (modifyServer_seat? _ sv (fun _ _ => removeSame_seat ..) e))
    simp [Use.refusal, Use.engine]
  | reply free server replies finish =>
    refine whole.tried_of_idle e fun _ _ _ ha => ?_
    rw [← (running_inj ha).2]
    cases replies <;> rfl
  | mute free server replies finish =>
    refine whole.tried_of_idle e fun _ _ _ ha => ?_
    rw [← (running_inj ha).2]
    cases replies <;> rfl
  | _ => exact whole.tried_of_idle e fun _ _ _ ha => (running_inj ha).2 ▸ rfl

/-! ## All attempts of an engine -/

namespace World

variable {w : World} {a b : Option TaskId × World} {e : EngineId}

/-- The attempts of an engine are failures, and one success at the end if its listener is
registered. -/
structure Tally (w : World) (e : EngineId) : Prop where
  unregistered : w.cell? e ≠ some .registered → ∃ ss : List Status, w.attempts e = ss.map .error
  registered : w.cell? e = some .registered →
    ∃ ss : List Status, w.attempts e = ss.map .error ++ [.ok ()]

theorem Tally.new (h : w.IsNew) : w.Tally e := by
  obtain ⟨wall, ids, rfl⟩ := h
  refine ⟨fun _ => ⟨[], rfl⟩, fun registered => ?_⟩
  cases e <;> cases registered

theorem Tally.ok_mem (h : w.Tally e) : .ok () ∈ w.attempts e ↔ w.cell? e = some .registered := by
  by_cases registered : w.cell? e = some .registered
  · obtain ⟨ss, attempts⟩ := h.registered registered
    simp [attempts, registered]
  · obtain ⟨ss, attempts⟩ := h.unregistered registered
    simp [attempts, registered]

theorem Tally.move (h : a.2.Tally e) (hm : Move a b) (turn : InTurn a) : b.2.Tally e := by
  -- whose attempt comes to its end has claimed the cell before
  have claimed : ∀ {t : TaskId} {j : Job} {u : Use}, a.2.tasks.get? t = some ⟨j, false⟩ →
      j.registers? = some u → u.engine = e → ∃ ws, a.2.cell? e = some (.attempting ws) :=
    fun task registers own => (turn.orderly e).registering _ _ _ task registers own
  cases hm.tried e with
  | none attempts cell =>
    refine ⟨fun unregistered => ?_, fun registered => ?_⟩
    · rw [attempts]
      exact h.unregistered fun registered => unregistered (hm.registered registered)
    · rw [attempts]
      exact h.registered (cell registered)
  | success t j u runs task registers own attempts cell =>
    obtain ⟨ws, attempting⟩ := claimed task registers own
    obtain ⟨ss, failures⟩ := h.unregistered (by simp [attempting])
    refine ⟨fun unregistered => absurd (cell ws attempting) unregistered, fun _ => ⟨ss, ?_⟩⟩
    rw [attempts, failures]
  | failure t j u s runs task registers own attempts cell idle events =>
    obtain ⟨ws, attempting⟩ := claimed task registers own
    obtain ⟨ss, failures⟩ := h.unregistered (by simp [attempting])
    refine ⟨fun _ => ⟨ss ++ [s], by simp [attempts, failures]⟩, fun registered => ?_⟩
    cases attempting.symm.trans (cell registered)

theorem Tally.outset {act : Act} (h : w.Tally e) (ho : Outset w act b) (tidy : w.Tidy) :
    b.2.Tally e := by
  have same : b.2.attempts e = w.attempts e := seen_outset (fun _ _ _ => rfl) ho
  rcases ho.cell tidy e with cell | ⟨none, vacant⟩
  · exact ⟨fun hx => same ▸ h.unregistered (cell ▸ hx), fun hx => same ▸ h.registered (cell ▸ hx)⟩
  · refine ⟨fun _ => same ▸ h.unregistered (by simp [none]), fun registered => ?_⟩
    cases vacant.symm.trans registered

theorem Tally.kept : Kept (fun _ _ => True) fun a => InTurn a ∧ ∀ e, a.2.Tally e :=
  InTurn.kept.add (fun tidy ho _ _ _ h e => (h e).outset ho tidy)
    (fun _ hm turn _ h e => (h e).move hm turn)

end World

/-! ## An act in which an attempt fails -/

@[simp] theorem World.park_onward (w : World) (t k : TaskId) (j : Job) (u : Use) :
    (w.park t j).onward k u = w.onward k u := by
  cases u <;> rfl

theorem World.onward_seeks (w : World) (t : TaskId) (u : Use) :
    ∀ j, (w.onward t u).2 = some j → j.seeks? = none := by
  intro j next
  cases u with
  | request i id m =>
    simp only [onward] at next
    split at next <;> cases next
    rfl
  | serve s method h => cases next

theorem Passes.seeks {w : World} {t : TaskId} {j j' : Job} {es : List Event} {u : Use}
    (h : Passes w t j es (some j')) (seeks : j'.seeks? = some u) :
    j.seeks? = some u ∧ es = [] := by
  generalize hn : some j' = next at h
  cases h with
  | useAtOnce u' registered => cases seeks.symm.trans (w.onward_seeks t u' _ hn.symm)
  | use u' registered => cases seeks.symm.trans (w.onward_seeks t u' _ hn.symm)
  | attempt u' p seat unregistered =>
    cases hn
    cases seeks
    exact ⟨rfl, rfl⟩
  | _ => cases hn <;> cases seeks

/-- A task that goes on to ask for a listener has been about to, and records nothing before. -/
theorem Move.seeking {a b : Option TaskId × World} (hm : Move a b) {t : TaskId} {j : Job} {u : Use}
    (runs : b.1 = some t) (task : b.2.tasks.get? t = some ⟨j, false⟩) (seeks : j.seeks? = some u) :
    ∃ (w : World) (j₀ : Job), a = (some t, w.park t j₀) ∧ j₀.seeks? = some u ∧
      b.2.events = a.2.events := by
  have parked : ∀ {w : World} {t' : TaskId} {j' : Job}, b = (some t', w.park t' j') →
      t' = t ∧ j' = j := fun heq => running_task heq runs task
  cases hm with
  | @pass w t' j' es next free passes =>
    cases next with
    | none => cases runs
    | some j'' =>
      obtain ⟨rfl, rfl⟩ := parked (w := w.recordAll es) rfl
      obtain ⟨before, rfl⟩ := passes.seeks seeks
      exact ⟨w, j', rfl, before, rfl⟩
  | claim free seat vacant =>
    obtain ⟨rfl, rfl⟩ := parked rfl
    cases seeks
    exact ⟨_, _, rfl, rfl, by simp⟩
  | addHandler free server vacant =>
    obtain ⟨rfl, rfl⟩ := parked rfl
    cases seeks
    exact ⟨_, _, rfl, rfl, rfl⟩
  | @enrol w t' r u' hub free registration =>
    cases next : (w.onward t' u').2 with
    | none => simp [next] at runs
    | some j' =>
      obtain rfl : t' = t := by simpa [next] using runs
      obtain rfl : j' = j := by simpa [next] using task
      cases seeks.symm.trans (w.onward_seeks t' u' j' next)
  | reply free server replies finish =>
    obtain ⟨-, rfl⟩ := parked rfl
    cases seeks
  | closeListening free seat opened registered =>
    obtain ⟨-, rfl⟩ := parked rfl
    cases seeks
  | post free posting linked onTopic finish =>
    obtain ⟨-, rfl⟩ := parked rfl
    cases seeks
  | call free invoked =>
    obtain ⟨-, rfl⟩ := parked rfl
    cases seeks
  | _ => cases runs

inductive Pursues (a b : Option TaskId × World) (t : TaskId) (u : Use) : Prop
  /-- It goes on to ask, or waits, or finds no engine. -/
  | asks (events : b.2.events = a.2.events)
  /-- It finds the listener registered. -/
  | finds (registered : a.2.cell? u.engine = some .registered)
      (events : b.2.events = ((a.2.onward t u).1.map fun e => (a.2.now, e)).reverse ++ a.2.events)
  /-- It registers the listener. -/
  | registers (events : b.2.events = ((a.2.onward t u).1.map fun e => (a.2.now, e)).reverse ++
      (a.2.now, .attempted u.engine (.ok ())) :: a.2.events)
  /-- It is refused the listener. -/
  | fails (idle : b.1 = none)

theorem Move.pursues {a b : Option TaskId × World} (hm : Move a b) {w : World} {t : TaskId}
    {j : Job} {u : Use} (ha : a = (some t, w.park t j)) (use : j.use? = some u) :
    Pursues a b t u := by
  cases hm with
  | remove seat unowned alive unheld => cases ha
  | @pass w' t' j' es next free passes =>
    obtain ⟨rfl, rfl⟩ := running_inj ha
    cases passes with
    | useAtOnce u' registered =>
      cases use
      exact .finds registered (by simp)
    | use u' registered =>
      cases use
      exact .finds registered (by simp)
    | seatless u' j job seat => exact .asks rfl
    | attempt u' p seat unregistered => exact .asks rfl
    | _ => cases use
  | doze free dozes => exact .asks rfl
  | claim free seat vacant => exact .asks (by simp)
  | wait free seat attempting => exact .asks (by simp)
  | @enrol w' t' r u' hub free registration =>
    obtain ⟨rfl, rfl⟩ := running_inj ha
    cases use
    exact .registers (by simp)
  | failRequest free refusal => exact .fails rfl
  | failServe free refusal => exact .fails rfl
  | reply free server replies finish =>
    obtain ⟨-, rfl⟩ := running_inj ha
    cases replies <;> cases use
  | mute free server replies finish =>
    obtain ⟨-, rfl⟩ := running_inj ha
    cases replies <;> cases use
  | _ =>
    obtain ⟨-, rfl⟩ := running_inj ha
    cases use

namespace World

variable {w : World} {a : Act} {b c : Option TaskId × World} {k : TaskId} {j : Job} {u : Use}

/-- What is seen of an act but not at its outset is seen of one of its moves. -/
theorem newly_moved {α : Type} {f : Event → Option α}
    (other : ∀ i id timeout, f (.accepted i id timeout) = none) (tidy : w.Tidy)
    (possible : a.IsPossible w) {x : α} (hx : x ∈ (w.newly a).filterMap f) :
    ∃ b c d, Outset w a b ∧ Moves b c ∧ Move c d ∧ Moves d (none, w.act a) ∧
      ∃ xs, d.2.seen f = c.2.seen f ++ xs ∧ x ∈ xs := by
  obtain ⟨b, ho, hm⟩ := act_moves tidy.tasks possible
  suffices ∀ e, Moves b e → ∃ xs, e.2.seen f = w.seen f ++ xs ∧ ∀ x ∈ xs, ∃ c d, Moves b c ∧
      Move c d ∧ Moves d e ∧ ∃ ys, d.2.seen f = c.2.seen f ++ ys ∧ x ∈ ys by
    obtain ⟨xs, seen, moved⟩ := this _ hm
    obtain rfl : (w.newly a).filterMap f = xs :=
      List.append_cancel_left ((newly_seen tidy possible f).symm.trans seen)
    obtain ⟨c, d, before, last, after, shown⟩ := moved x hx
    exact ⟨b, c, d, ho, before, last, after, shown⟩
  intro e he
  induction he with
  | refl => exact ⟨[], by simp [seen_outset other ho], by simp⟩
  | @tail c d before last ih =>
    obtain ⟨xs, seen, moved⟩ := ih
    obtain ⟨es, events⟩ := last.grows.events
    refine ⟨xs ++ (es.map (·.2)).reverse.filterMap f, ?_, fun x hx => ?_⟩
    · rw [seen_append events.symm, seen, List.append_assoc]
    · rcases List.mem_append.mp hx with old | new
      · obtain ⟨c', d', before', last', after, shown⟩ := moved x old
        exact ⟨c', d', before', last', after.tail last, shown⟩
      · exact ⟨c, d, before, last, .refl, _, seen_append events.symm, new⟩

/-- A task that asks for a listener in the middle of an act has its turn in the act for that, and
nothing has happened in the act so far. -/
theorem seeking (ho : Outset w a b) (hm : Moves b c) (runs : c.1 = some k)
    (task : c.2.tasks.get? k = some ⟨j, false⟩) (seeks : j.seeks? = some u) :
    (∃ j₀, w.turn? a = some (k, j₀) ∧ j₀.seeks? = some u) ∧ c.2.events = w.events := by
  induction hm generalizing j with
  | refl =>
    obtain ⟨running, hand⟩ := turn?_of_outset ho
    obtain ⟨⟨t, j₀⟩, turn, rfl⟩ := Option.map_eq_some_iff.mp (running.symm.trans runs)
    cases task.symm.trans (hand t j₀ turn)
    refine ⟨⟨j, turn, seeks⟩, ?_⟩
    cases ho with
    | take t j ready task => rfl
    | enter o allowed => rfl
    | _ => cases runs
  | tail _ last ih =>
    obtain ⟨v, j₀, rfl, sought, events⟩ := last.seeking runs task seeks
    obtain ⟨turn, before⟩ := ih rfl (park_self v k j₀) sought
    exact ⟨turn, events.trans before⟩

/-- When nobody runs any more nothing more happens in an act. -/
theorem events_of_idle (hm : Moves b c) (idle : b.1 = none) :
    c.1 = none ∧ c.2.events = b.2.events := by
  induction hm with
  | refl => exact ⟨idle, rfl⟩
  | tail _ last ih =>
    obtain ⟨idle, events⟩ := ih
    obtain ⟨e, p, side, rfl⟩ := last.idle idle
    exact ⟨rfl, by simp [events]⟩

theorem has_of_newly {e : Event} (h : e ∈ w.newly a) : (w.act a).Has e := by
  obtain ⟨⟨τ, e⟩, member, rfl⟩ := List.mem_map.mp (List.mem_reverse.mp h)
  exact ⟨τ, List.mem_of_mem_take member⟩

/-- **An attempt that fails takes up its act.** The task whose turn it is has asked for the
listener, and tells of the failure whoever this concerns. -/
theorem failed_act (tidy : w.Tidy) (possible : a.IsPossible w) {e : EngineId} {s : Status}
    (failed : .attempted e (.error s) ∈ w.newly a) :
    ∃ k j u τ, w.turn? a = some (k, j) ∧ j.seeks? = some u ∧ u.engine = e ∧
      (w.act a).events =
        [(τ, u.refusal k s), (τ, .attempted e (.error s))] ++ w.events := by
  obtain ⟨b, c, d, ho, before, last, after, xs, seen, hx⟩ :=
    newly_moved (fun _ _ _ => rfl) tidy possible (Event.mem_attempt?.mpr failed)
  have new : ∀ {ys}, d.2.attempts e = c.2.attempts e ++ ys → .error s ∈ ys := fun same =>
    List.append_cancel_left (seen.symm.trans same) ▸ hx
  cases last.tried e with
  | none attempts cell => cases new (attempts.trans (List.append_nil _).symm)
  | success t j u runs task registers own attempts cell => simpa using new attempts
  | failure t j u s' runs task registers own attempts cell idle events =>
    obtain rfl : s = s' := by simpa using new attempts
    subst own
    have seeks := Job.seeks_of_use (Job.use_of_registers registers)
    obtain ⟨⟨j₀, turn, sought⟩, silent⟩ := seeking ho before runs task seeks
    refine ⟨t, j₀, u, c.2.now, turn, sought, rfl, ?_⟩
    rw [(events_of_idle after idle).2, events, silent]
    rfl

end World

end Switchboard
