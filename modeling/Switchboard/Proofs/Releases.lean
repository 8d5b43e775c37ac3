import Switchboard.Proofs.Closing
import Switchboard.Proofs.Outcomes

/-! # Listeners come and go with those who need them

Nobody has to close an engine. As long as it has an owner, a call or a task, its listener stays on
the hub once it is registered; when the last of them is gone, the engine leaves a task behind that
takes the listener off. So a listener is neither lost too early nor left behind for good, as long as
nothing is closed, no link refuses to unregister listeners, and no engine goes away outside the
runtime: there is nothing to carry the task there, and its listener stays for good. Main statement:
`listeners_follow_use`.
-/

namespace Switchboard

open World

/-- The act closes nothing, and makes no link fail to unregister listeners. -/
def Act.peaceful : Act → Bool
  | .command (.enter o) => !Job.closes (.start o)
  | .command (.spawn o) => !Job.closes (.start o)
  | .command (.closeLink _) => false
  | .command (.setFault _ .unregister fault) => fault.refusal.isNone
  | _ => true

namespace World

variable {w : World} {a b : Option TaskId × World} {e : EngineId} {p q : Seat} {r : Registration}

/-- Nothing is closed or about to be, and no link refuses to unregister listeners. -/
structure Peaceful (w : World) : Prop where
  seats : ∀ e p, w.seat? e = some p → p.closed = false
  links : ∀ l link, w.links.get? l = some link →
    link.closed = false ∧ link.onUnregister.refusal = none
  jobs : ∀ j, w.HasJob j → j.closes = false

theorem Peaceful.move (h : a.2.Peaceful) (hm : Move a b) (tidy : a.2.Tidy) : b.2.Peaceful := by
  refine ⟨fun e q seat => ?_, fun l link linked => h.links l link (hm.links ▸ linked),
    fun j hj => ?_⟩
  · obtain ⟨p, seat', moved⟩ := hm.seat seat
    refine Bool.eq_false_iff.mpr fun closed => ?_
    rcases moved.closed closed with before | ⟨w, t, rfl⟩
    · rw [h.seats e p seat'] at before
      cases before
    · have closes := h.jobs _ (hasJob_park w t _)
      cases closes
  · rcases hm.leads tidy hj with old | ⟨w, t, j₀, -, leads⟩ | ⟨e, p, -, -, -, -, rfl⟩
    · exact h.jobs j old
    · exact leads.closes
    · rfl

theorem Peaceful.outset {act : Act} (h : w.Peaceful) (ho : Outset w act b)
    (calm : act.peaceful = true) : b.2.Peaceful := by
  refine ⟨fun e q seat => ?_, fun l link linked => ?_, fun j hj => ?_⟩
  · rcases seat_of_outset ho seat with ⟨p, handles, seat', rfl, -⟩ | ⟨-, -, -, opened, -⟩
    · exact h.seats e p seat'
    · exact opened
  · cases ho with
    | addLink address =>
      rw [Table.get?_insert] at linked
      split at linked
      · cases linked
        exact ⟨rfl, rfl⟩
      · exact h.links l link linked
    | setFault l' action fault =>
      simp only [World.setFault, Table.get?_modify] at linked
      split at linked
      · obtain ⟨link', linked', rfl⟩ := Option.map_eq_some_iff.mp linked
        have before := h.links l link' linked'
        cases action with
        | unregister => exact ⟨before.1, by simpa [Act.peaceful, Link.setFault] using calm⟩
        | _ => exact before
      · exact h.links l link linked
    | closeLink l' => cases calm
    | invoke i method payload options owned =>
      rw [invoke_links] at linked
      exact h.links l link linked
    | fire due next => exact h.links l link (by simpa [World.fire] using linked)
    | hold e owned => exact h.links l link (by simpa [World.hold] using linked)
    | drop e side owned => exact h.links l link (by simpa using linked)
    | _ => exact h.links l link linked
  · rcases ho.leads hj with old | ⟨o, starts, rfl⟩ | ⟨l, m, -, rfl⟩ |
      ⟨i, method, payload, options, -, rfl | ⟨c, m, -, -, -, rfl⟩⟩
    · exact h.jobs j old
    · rcases starts with rfl | rfl <;> simpa [Act.peaceful] using calm
    all_goals rfl

theorem Peaceful.new (h : w.IsNew) : w.Peaceful := by
  obtain ⟨wall, ids, rfl⟩ := h
  refine ⟨?_, by simp [Table.get?], fun j hx => ?_⟩
  · rintro (i | s) p hp <;> cases hp
  · obtain ⟨k, x, hk, -⟩ := hx
    cases hk

/-- **Peace lasts** in a run in which nothing is closed. -/
theorem Peaceful.kept :
    Kept (fun _ a => a.peaceful = true) fun a => a.2.tasks.Sole ∧ a.2.Peaceful :=
  (sole_kept.mono fun _ _ _ => trivial).add (fun _ ho calm _ _ h => h.outset ho calm)
    (fun tidy hm _ _ h => h.move hm tidy)

/-- What is left alone is gone at each moment of such a run. -/
theorem tended_after {as : List Act} (new : w.IsNew) (run : w.CanRun as)
    (calm : ∀ a ∈ as, a.peaceful = true) : (w.after as).Tended := by
  have sole : w.tasks.Sole := by
    obtain ⟨wall, ids, rfl⟩ := new
    exact Table.sole_empty
  suffices ∀ (v : World) (as : List Act), v.Tidy → v.tasks.Sole ∧ v.Peaceful → v.Tended →
      v.CanRun as → (∀ a ∈ as, a.peaceful = true) → (v.after as).Tended from
    this w as (.new new) ⟨sole, .new new⟩ (.new new) run calm
  intro v as tidy before tended run calm
  induction as generalizing v with
  | nil => exact tended
  | cons a as ih =>
    have next := Peaceful.kept.act run.1 (calm a List.mem_cons_self) tidy before
    exact ih _ next.1 next.2 (tended.act tidy before.1 run.1 before.2.jobs) run.2
      fun a ha => calm a (List.mem_cons_of_mem _ ha)

theorem Peaceful.unregistration (h : w.Peaceful) {l : LinkId}
    (linked : ∃ link, w.links.get? l = some link) (listed : r ∈ w.hub.registrations) :
    ∃ hub, w.unregistration l r.source r.sink r.listener = .ok hub := by
  obtain ⟨link, linked⟩ := linked
  obtain ⟨opened, willing⟩ := h.links l link linked
  have accepts : w.refusal? l .unregister = none := by
    simp [refusal?, linked, Link.refusal?, Link.fault, opened, willing]
  have some : w.hub.registrations.any (·.is r.source r.sink r.listener) = true :=
    List.any_eq_true.mpr ⟨r, listed, by simp [Registration.is]⟩
  simp [World.unregistration, accepts, Hub.unregister, some]

end World

/-! ## What an engine leaves behind -/

/-- The task takes the listener of an engine that is gone off the hub. -/
inductive Job.Detaches (p : Seat) (e : EngineId) : Job → Prop
  | begins : Detaches p e (.withdraw p.link p.sink e)
  | goes :
    Detaches p e (.unregister p.link Address.any (some p.sink) (.engine e) .nothing)

theorem Job.Detaches.carry {w : World} {p q : Seat} {e : EngineId} (grows : p.Grows q)
    (h : ∃ k j, w.tasks.get? k = some ⟨j, false⟩ ∧ Job.Detaches p e j) :
    ∃ k j, w.tasks.get? k = some ⟨j, false⟩ ∧ Job.Detaches q e j := by
  obtain ⟨k, j, task, detaches⟩ := h
  refine ⟨k, j, task, ?_⟩
  cases detaches <;> rw [← grows.link, ← grows.sink]
  · exact .begins
  · exact .goes

/-- A task that begins to take off the listener of an engine that is gone goes on to unregister
it. -/
theorem Move.withdrawing {a b : Option TaskId × World} (hm : Move a b) {t : TaskId} {l : LinkId}
    {sink : Address} {e : EngineId} (runs : a.1 = some t)
    (task : a.2.tasks.get? t = some ⟨.withdraw l sink e, false⟩) :
    b.2.tasks.get? t =
      some ⟨.unregister l Address.any (some sink) (.engine e) .nothing, false⟩ := by
  obtain ⟨w, ha⟩ := hm.parked runs task
  cases hm with
  | remove seat' unowned alive unheld => cases ha
  | @pass u t' j es next free passes =>
    obtain ⟨rfl, rfl⟩ := running_inj ha
    cases passes with
    | withdraw => simp
    | seatless u _ eq seat' => rcases eq with eq | eq <;> cases eq
  | doze free dozes =>
    obtain ⟨-, rfl⟩ := running_inj ha
    cases dozes
  | reply free server replies finish =>
    obtain ⟨-, rfl⟩ := running_inj ha
    cases replies
  | mute free server replies finish =>
    obtain ⟨-, rfl⟩ := running_inj ha
    cases replies
  | _ =>
    obtain ⟨-, eq⟩ := running_inj ha
    cases eq

/-- The listener that the task is to take off the hub, with its filters. -/
def Job.unlists : Job → Option (Address × Option Address × Listener)
  | .unregister _ source sink l _ => some (source, sink, l)
  | .withdraw _ sink e => some (Address.any, some sink, .engine e)
  | .start (.unregister _ source sink key _) => some (source, sink, .plain key)
  | _ => none

/-- Whoever is to take a listener off was to do so from the first, or closes an engine. -/
theorem Leads.unlists {w : World} {t : TaskId} {j j' : Job}
    {x : Address × Option Address × Listener} (h : Leads w t j j')
    (unlists : j'.unlists = some x ∨ j'.closes = true) :
    j.unlists = some x ∨ j.closes = true := by
  cases h with
  | close e p seat opened registered => exact .inr rfl
  | withdraw l sink e => exact unlists
  | startUnregister l source sink key r => exact unlists
  | _ => simp [Job.unlists, Job.closes] at unlists

namespace World

variable {w : World} {a b : Option TaskId × World} {e : EngineId} {p q : Seat} {r : Registration}

/-- Who is on the hub, and who holds the engines. -/
theorem Enrolled.forsaken : Kept (fun _ _ => True) fun a =>
    ((InTurn a ∧ a.2.Listening) ∧ a.2.Enrolled) ∧ a.2.Forsaken :=
  Enrolled.kept.add (fun _ ho _ before _ h => h.outset ho before.1.2)
    (fun tidy hm _ _ h => h.move hm tidy)

structure Calm (a : Option TaskId × World) : Prop where
  turn : InTurn a
  listening : a.2.Listening
  enrolled : a.2.Enrolled
  forsaken : a.2.Forsaken
  peaceful : a.2.Peaceful

theorem Calm.new (h : w.IsNew) : Calm (none, w) := ⟨.new h, .new h, .new h, .new h, .new h⟩

theorem Calm.kept : Kept (fun _ a => a.peaceful = true) Calm where
  outset tidy ho quiet h :=
    have next := Enrolled.forsaken.outset tidy ho trivial
      ⟨⟨⟨h.turn, h.listening⟩, h.enrolled⟩, h.forsaken⟩
    ⟨next.1.1.1, next.1.1.2, next.1.2, next.2, h.peaceful.outset ho quiet⟩
  move tidy hm h :=
    have next := Enrolled.forsaken.move tidy hm
      ⟨⟨⟨h.turn, h.listening⟩, h.enrolled⟩, h.forsaken⟩
    ⟨next.1.1.1, next.1.1.2, next.1.2, next.2, h.peaceful.move hm tidy⟩

/-- An engine that is there is on the hub once its listener has been registered. -/
theorem Calm.listed (h : Calm a) (seat : a.2.seat? e = some p) (registered : p.cell = .registered)
    (alive : p.gone = false) : p.registration e ∈ a.2.hub.registrations := by
  have cell : a.2.cell? e = some .registered := by rw [cell?, seat, ← registered]; rfl
  obtain ⟨p', seat', listens⟩ := h.listening.listens e cell
  cases seat.symm.trans seat'
  refine listens.resolve_right fun hx => ?_
  rcases hx with ⟨q, seat', closed | gone⟩ | ⟨link, linked, closed⟩
  · rw [h.peaceful.seats e q seat'] at closed
    cases closed
  · cases seat.symm.trans seat'
    rw [alive] at gone
    cases gone
  · rw [(h.peaceful.links _ link linked).1] at closed
    cases closed

/-- The listener of an engine is to be taken off only when the engine is gone. -/
theorem Calm.gone_of_unlists (h : Calm a) {j : Job} {source : Address} {sink : Option Address}
    (has : a.2.HasJob j) (unlists : j.unlists = some (source, sink, .engine e)) :
    ∃ p, a.2.seat? e = some p ∧ p.gone = true := by
  have retired : a.2.Retired e := by
    have proper := h.listening.jobs j has
    cases j with
    | unregister l source sink listener after =>
      cases unlists
      exact proper
    | withdraw l sink e' =>
      cases unlists
      exact proper
    | start o => cases o <;> cases unlists
    | _ => cases unlists
  obtain ⟨p, seat, closed | gone⟩ := retired
  · rw [h.peaceful.seats e p seat] at closed
    cases closed
  · exact ⟨p, seat, gone⟩

/-- The engine is gone, and if it is on the hub it is about to be taken off. -/
def Clearing (w : World) (e : EngineId) : Prop :=
  ∃ p, w.seat? e = some p ∧ p.gone = true ∧ (p.registration e ∈ w.hub.registrations →
    ∃ k j, w.tasks.get? k = some ⟨j, false⟩ ∧ j.Detaches p e)

/-- An engine that goes away inside the runtime leaves such a task. -/
theorem detaches_of_remove (registered : p.cell = .registered) (opened : p.closed = false) :
    ∃ k j, (w.remove e p .inside).tasks.get? k = some ⟨j, false⟩ ∧ j.Detaches p e := by
  refine ⟨w.tasks.next, _, ?_, .begins⟩
  simp [registered, opened]

/-- The task keeps at it until the listener is off the hub. -/
theorem detaches_until_unlisted (h : a.2.Peaceful) (hm : Move a b) {k : TaskId} {j : Job}
    (linked : ∃ link, a.2.links.get? p.link = some link) (runs : a.1 = some k)
    (task : a.2.tasks.get? k = some ⟨j, false⟩) (detaches : j.Detaches p e)
    (listed : p.registration e ∈ a.2.hub.registrations)
    (stays : p.registration e ∈ b.2.hub.registrations) :
    ∃ j', b.2.tasks.get? k = some ⟨j', false⟩ ∧ j'.Detaches p e := by
  cases detaches with
  | begins => exact ⟨_, hm.withdrawing runs task, .goes⟩
  | goes =>
    obtain ⟨w, rfl, -, rfl | ⟨s, refused, rfl⟩ | ⟨hub, unregistration, rfl⟩⟩ :=
      hm.unregisters runs task
    · exact ⟨_, sleep_self .., .goes⟩
    · obtain ⟨hub, taken⟩ := h.unregistration linked listed
      cases refused.symm.trans taken
    · simp only [recordAll_keeps, hub_of_unregistration unregistration, List.mem_filter] at stays
      simp [Registration.is, Seat.registration] at stays

theorem listed_before (hm : Move a b) (calm : Calm a) (seat : a.2.seat? e = some p)
    (gone : p.gone = true) (listed : p.registration e ∈ b.2.hub.registrations) :
    p.registration e ∈ a.2.hub.registrations := by
  rcases hm.enlists listed with old | ⟨w, t, after, rfl⟩
  · exact old
  · have parked := hasJob_park w t
      (.register (p.registration e).owner (p.registration e).source (p.registration e).sink
        (p.registration e).listener after)
    obtain ⟨u, -, rfl, rfl, -, -⟩ := calm.enrolled.used calm.listening parked rfl
    exact absurd ⟨_, parked, rfl⟩ (calm.forsaken _ p seat gone)

theorem Clearing.move (h : a.2.Clearing e) (hm : Move a b) (tidy : a.2.Tidy) (calm : Calm a) :
    b.2.Clearing e := by
  obtain ⟨p, seat, gone, detaches⟩ := h
  obtain ⟨q, seat', grows⟩ := hm.grows.seats e p seat
  refine ⟨q, seat', grows.gone gone, fun listed => Job.Detaches.carry grows ?_⟩
  rw [Seat.Grows.registration grows] at listed
  have before := listed_before hm calm seat gone listed
  obtain ⟨k, j, task, detaches⟩ := detaches before
  by_cases runs : a.1 = some k
  · exact ⟨k, detaches_until_unlisted calm.peaceful hm (calm.listening.linked e p seat) runs task
      detaches before listed⟩
  · have never : j.call? = none := by cases detaches <;> rfl
    exact ⟨k, j, calm.turn.wakeful.keeps hm tidy task runs never, detaches⟩

theorem Clearing.outset {act : Act} (h : w.Clearing e) (ho : Outset w act b) (tidy : w.Tidy) :
    b.2.Clearing e := by
  obtain ⟨p, seat, gone, detaches⟩ := h
  obtain ⟨q, seat', grows⟩ := (ho.grows tidy).seats e p seat
  refine ⟨q, seat', grows.gone gone, fun listed => Job.Detaches.carry grows ?_⟩
  rw [Seat.Grows.registration grows] at listed
  obtain ⟨k, j, task, detaches⟩ := detaches (ho.roster.subset listed)
  rcases ho.stays tidy task with same | ⟨cancelled, -⟩
  · exact ⟨k, j, same, detaches⟩
  · cases cancelled

theorem Clearing.kept (e : EngineId) :
    Kept (fun _ a => a.peaceful = true) fun a => Calm a ∧ a.2.Clearing e :=
  Calm.kept.add (fun tidy ho _ _ _ h => h.outset ho tidy)
    fun tidy hm calm _ h => h.move hm tidy calm

/-- The engine's last owner drops it outside the runtime, no task holds it, and its listener is
registered. -/
structure Strands (w : World) (a : Act) (e : EngineId) : Prop where
  drops : a = .command (.drop e .outside)
  last : ∃ p, w.seat? e = some p ∧ p.handles = 1 ∧ p.cell = .registered
  unheld : w.isHeld e = false

/-- This has happened to the engine in the run. -/
def LeftBehind (w : World) (as : List Act) (e : EngineId) : Prop :=
  ∃ bs a cs, as = bs ++ a :: cs ∧ (w.after bs).Strands a e

theorem LeftBehind.cons {a : Act} {as : List Act} (h : (w.act a).LeftBehind as e) :
    w.LeftBehind (a :: as) e := by
  obtain ⟨bs, a', cs, rfl, strands⟩ := h
  exact ⟨a :: bs, a', cs, rfl, strands⟩

theorem LeftBehind.mem {as : List Act} (h : w.LeftBehind as e) :
    .command (.drop e .outside) ∈ as := by
  obtain ⟨bs, a, cs, rfl, strands⟩ := h
  simp [strands.drops]

/-- The engine is gone but is on the hub, and no task is to take it off. -/
structure Stranded (w : World) (e : EngineId) : Prop where
  gone : ∃ p, w.seat? e = some p ∧ p.gone = true ∧ p.registration e ∈ w.hub.registrations
  nobody : ∀ j source sink, w.HasJob j → j.unlists ≠ some (source, sink, .engine e)

theorem Strands.stranded {a : Act} (h : w.Strands a e) (calm : Calm (none, w)) :
    (w.act a).Stranded e := by
  obtain ⟨rfl, ⟨p, seat, one, registered⟩, unheld⟩ := h
  have alive := calm.listening.owned e p seat (by omega)
  have listed := calm.listed seat registered alive
  have left : w.act (.command (.drop e .outside)) =
      (w.modifySeat (fun p => { p with handles := p.handles - 1 }) e).remove e
        { p with handles := 0 } .outside := by
    simp [act, obey, World.letGo, release, seat, one, alive, unheld]
  rw [left]
  refine ⟨⟨{ p with handles := 0, gone := true }, by simp [seat, one], rfl,
    by simpa [Seat.registration] using listed⟩, fun j source sink has unlists => ?_⟩
  have before : w.HasJob j := by
    rcases remove_tasks (w.modifySeat (fun p => { p with handles := p.handles - 1 }) e) e
      { p with handles := 0 } .outside with ⟨-, -, inside, -⟩ | tasks
    · cases inside
    · exact has.of_same (by simp)
  obtain ⟨p', seat', gone⟩ := calm.gone_of_unlists before unlists
  cases seat.symm.trans seat'
  rw [alive] at gone
  cases gone

theorem Stranded.move (h : a.2.Stranded e) (hm : Move a b) (tidy : a.2.Tidy) (calm : Calm a) :
    b.2.Stranded e := by
  obtain ⟨p, seat, gone, listed⟩ := h.gone
  obtain ⟨q, seat', grows⟩ := hm.grows.seats e p seat
  refine ⟨⟨q, seat', grows.gone gone, ?_⟩, fun j source sink has unlists => ?_⟩
  · rw [Seat.Grows.registration grows]
    refine (hm.hub listed).resolve_right fun hx => ?_
    obtain ⟨t, l, after, -, task⟩ := hx
    exact h.nobody _ _ _ ⟨t, _, task, rfl⟩ rfl
  · rcases hm.leads tidy has with old | ⟨w, t, j₀, rfl, leads⟩ |
      ⟨e', p', seat'', ⟨-, alive⟩, -, -, rfl⟩
    · exact h.nobody j source sink old unlists
    · rcases leads.unlists (.inl unlists) with before | closes
      · exact h.nobody j₀ source sink (hasJob_park w t j₀) before
      · rw [calm.peaceful.jobs j₀ (hasJob_park w t j₀)] at closes
        cases closes
    · cases unlists
      cases seat.symm.trans seat''
      rw [gone] at alive
      cases alive

theorem Stranded.outset {act : Act} (h : w.Stranded e) (ho : Outset w act b) (tidy : w.Tidy)
    (before : Calm (none, w)) (after : Calm b) : b.2.Stranded e := by
  obtain ⟨p, seat, gone, listed⟩ := h.gone
  obtain ⟨q, seat', grows⟩ := (ho.grows tidy).seats e p seat
  refine ⟨⟨q, seat', grows.gone gone, ?_⟩, fun j source sink has unlists => ?_⟩
  · rw [Seat.Grows.registration grows]
    have linked := before.listening.linked e p seat
    refine (listed_of_outset ho linked listed).resolve_right fun hx => ?_
    obtain ⟨link, linked, closed⟩ := hx
    rw [(after.peaceful.links _ link linked).1] at closed
    cases closed
  · rcases ho.leads has with old | ⟨o, -, rfl⟩ | ⟨l, m, -, rfl⟩ |
      ⟨i, method, payload, options, -, rfl | ⟨c, m, -, -, -, rfl⟩⟩
    · exact h.nobody j source sink old unlists
    · cases o <;> cases unlists
    all_goals cases unlists

theorem Stranded.kept (e : EngineId) :
    Kept (fun _ a => a.peaceful = true) fun a => Calm a ∧ a.2.Stranded e :=
  Calm.kept.add (fun tidy ho _ before after h => h.outset ho tidy before after)
    fun tidy hm calm _ h => h.move hm tidy calm

/-- An engine that goes away leaves a task to take it off the hub, or is stranded there. -/
theorem clearing_or_strands {a : Act} (possible : a.IsPossible w) (tidy : w.Tidy)
    (calm : Calm (none, w.act a)) (alive : ∀ p, w.seat? e = some p → p.gone = false)
    (seat : (w.act a).seat? e = some q) (gone : q.gone = true) :
    (w.act a).Clearing e ∨ w.Strands a e := by
  obtain ⟨b, u, ho, works, parts⟩ := act_parts tidy.tasks possible
  have here : ∀ p, u.seat? e = some p → p.gone = false := by
    intro p seat
    obtain ⟨p', seat', same⟩ := works.gone seat
    rw [← same]
    rcases seat_of_outset ho seat' with ⟨p'', handles, before, rfl, -⟩ | ⟨-, -, alive', -⟩
    · exact alive p'' before
    · exact alive'
  by_cases listed : q.registration e ∈ (w.act a).hub.registrations
  swap
  · exact .inl ⟨q, seat, gone, fun there => absurd there listed⟩
  have registered : q.cell = .registered := by
    simpa [cell?, seat] using (calm.enrolled.own _ listed e rfl).1
  have opened := calm.peaceful.seats e q seat
  generalize w.act a = v at *
  cases parts with
  | stays =>
    rw [here q seat] at gone
    cases gone
  | @goes e' p side allowed seat' unowned alive' unheld =>
    rw [remove_seat?] at seat
    split at seat
    swap
    · rw [here q seat] at gone
      cases gone
    rename_i same
    subst same
    rw [seat'] at seat
    cases seat
    cases side with
    | inside =>
      exact .inl ⟨{ p with gone := true }, by simp [seat'], rfl, fun _ =>
        Job.Detaches.carry ⟨rfl, rfl, rfl, id, fun _ => rfl⟩ (detaches_of_remove registered opened)⟩
    | outside =>
      right
      obtain rfl : a = .command (.drop e' .outside) := allowed.resolve_left (by simp)
      have owned : w.isOwned e' = true := by
        simpa [Act.IsPossible, Command.isAllowed, Command.engine?] using possible
      obtain ⟨p₀, before, handles⟩ := seat_of_owned owned
      cases ho with
      | idle =>
        cases works.eq_of_idle
        cases before.symm.trans seat'
        omega
      | drop =>
        cases works.eq_of_idle
        have seat' : some { p₀ with handles := p₀.handles - 1 } = some p := by
          simpa [before] using seat'
        cases seat'
        exact ⟨rfl, ⟨p₀, before, by simp only at unowned; omega, registered⟩, by simpa using unheld⟩

/-- **Who is gone is taken off the hub, or was left behind** in a run in which nothing is closed. -/
theorem clearing_or_left_behind {as : List Act} (run : w.CanRun as)
    (quiet : ∀ a ∈ as, a.peaceful = true) (tidy : w.Tidy) (calm : Calm (none, w))
    (clearing : ∀ p, w.seat? e = some p → p.gone = true → w.Clearing e)
    (seat : (w.after as).seat? e = some q) (gone : q.gone = true) :
    (w.after as).Clearing e ∨ w.LeftBehind as e := by
  induction as generalizing w with
  | nil => exact .inl (clearing q seat gone)
  | cons a as ih =>
    have quiet' := quiet a List.mem_cons_self
    have next := Calm.kept.act run.1 quiet' tidy calm
    by_cases strands : w.Strands a e
    · exact .inr ⟨[], a, as, rfl, strands⟩
    refine (ih run.2 (fun a ha => quiet a (List.mem_cons_of_mem _ ha)) next.1 next.2
      (fun p seat gone => ?_) seat).imp_right LeftBehind.cons
    by_cases alive : ∀ p, w.seat? e = some p → p.gone = false
    · exact (clearing_or_strands run.1 tidy next.2 alive seat gone).resolve_right strands
    · push Not at alive
      obtain ⟨p', seat', gone'⟩ := alive
      have before := clearing p' seat' (by simpa using gone')
      exact ((Clearing.kept e).act run.1 quiet' tidy ⟨calm, before⟩).2.2

/-- **Who was left behind stays on the hub.** -/
theorem LeftBehind.stranded {as : List Act} (h : w.LeftBehind as e) (run : w.CanRun as)
    (quiet : ∀ a ∈ as, a.peaceful = true) (tidy : w.Tidy) (calm : Calm (none, w)) :
    (w.after as).Stranded e := by
  obtain ⟨bs, a, cs, rfl, strands⟩ := h
  have known : Along (fun _ a => a.peaceful = true) w (bs ++ a :: cs) :=
    .of_forall fun a ha _ => quiet a ha
  obtain ⟨run, possible, run'⟩ := Along.append.mp run
  obtain ⟨known, quiet, known'⟩ := Along.append.mp known
  obtain ⟨tidy, calm⟩ := Calm.kept.run run known tidy calm
  have next := Calm.kept.act possible quiet tidy calm
  rw [after_append]
  exact ((Stranded.kept e).run run' known' next.1 ⟨next.2, strands.stranded calm⟩).2.2

/-! ## Who is on the hub -/

/-- The engine is in use: it has an owner, a call that has not ended, or a task that holds it. -/
def InUse (w : World) (e : EngineId) : Prop :=
  w.isOwned e = true ∨ (∃ i, e = .caller i ∧ w.pendingOf i ≠ []) ∨ w.Held e

theorem not_inUse (unowned : w.isOwned e = false)
    (calls : ∀ i, e = .caller i → w.pendingOf i = []) (unheld : w.isHeld e = false) :
    ¬w.InUse e := by
  rintro (owned | ⟨i, same, pends⟩ | held)
  · rw [unowned] at owned
    cases owned
  · exact pends (calls i same)
  · rw [held.isHeld] at unheld
    cases unheld

theorem not_hasJob_of_isEmpty (none : w.tasks.entries.isEmpty = true) (j : Job) :
    ¬w.HasJob j := by
  rintro ⟨k, x, task, -⟩
  have listed := Table.mem_of_get? task
  rw [List.isEmpty_iff.mp none] at listed
  cases listed

theorem InUse.here (h : w.InUse e) (listening : w.Listening) (forsaken : w.Forsaken)
    (docket : w.Docket) (seat : w.seat? e = some p) : p.gone = false := by
  rcases h with owned | ⟨i, rfl, calls⟩ | held
  · obtain ⟨p', seat', handles⟩ := seat_of_owned owned
    cases seat.symm.trans seat'
    exact listening.owned e p seat handles
  · obtain ⟨c, pends⟩ := List.exists_mem_of_ne_nil _ calls
    exact Bool.eq_false_iff.mpr fun gone => forsaken _ p seat gone (docket.held pends)
  · exact Bool.eq_false_iff.mpr fun gone => forsaken e p seat gone held

theorem Enrolled.once (h : w.Enrolled) (seat : w.seat? e = some p)
    (listed : p.registration e ∈ w.hub.registrations) :
    w.hub.registrations.filter (·.listener == .engine e) = [p.registration e] := by
  have own : ∀ r ∈ w.hub.registrations,
      (r.listener == .engine e) = (r == p.registration e) := by
    intro r hr
    refine Bool.eq_iff_iff.mpr ⟨fun own => ?_, fun same => ?_⟩
    · rw [h.eq_registration seat (.refl p) hr (by simpa using own)]
      exact beq_self_eq_true _
    · rw [eq_of_beq same]
      exact beq_self_eq_true _
  rw [List.filter_congr own, List.filter_beq, List.count_eq_one_of_mem h.nodup listed]
  rfl

end World

namespace World

variable {w : World} {a : Act} {b c : Option TaskId × World} {r : Registration}

/-- A registration leaves the hub in an act only if its link is closed, or the task that runs was
to take it off, or closes an engine. -/
theorem unlisted_by (tidy : w.Tidy) (possible : a.IsPossible w)
    (listed : r ∈ w.hub.registrations) (lost : r ∉ (w.act a).hub.registrations) :
    a = .command (.closeLink r.owner) ∨ ∃ t j, w.turn? a = some (t, j) ∧
      (j.unlists = some (r.source, r.sink, r.listener) ∨ j.closes = true) := by
  obtain ⟨b, ho, hm⟩ := act_moves tidy.tasks possible
  suffices ∀ c, Moves b c → r ∈ c.2.hub.registrations ∨ a = .command (.closeLink r.owner) ∨
      ∃ t j, w.turn? a = some (t, j) ∧
        (j.unlists = some (r.source, r.sink, r.listener) ∨ j.closes = true) from
    (this _ hm).resolve_left lost
  intro c hc
  induction hc with
  | refl =>
    cases ho with
    | closeLink l =>
      by_cases own : r.owner = l
      · exact .inr (.inl (by rw [own]))
      · left
        simp only [World.closeLink, Hub.withdraw, List.mem_filter]
        exact ⟨listed, by simpa using own⟩
    | invoke i method payload options owned => exact .inl (by rwa [invoke_hub])
    | fire due next => exact .inl (by simpa [World.fire] using listed)
    | hold e owned => exact .inl (by simpa [World.hold] using listed)
    | drop e side owned => exact .inl (by simpa using listed)
    | _ => exact .inl listed
  | tail before last ih =>
    refine ih.elim (fun listed => ?_) .inr
    rcases last.hub listed with stays | ⟨t, l, after, runs, task⟩
    · exact .inl stays
    · obtain ⟨j, turn, unlists⟩ := turn?_of_moves
        (F := fun j => j.unlists = some (r.source, r.sink, r.listener) ∨ j.closes = true)
        (fun _ _ _ _ leads _ => leads.unlists) ho before runs task (.inl rfl)
      exact .inr (.inr ⟨t, j, turn, unlists⟩)

theorem Calm.gone_of_turn (h : Calm (none, w)) {t : TaskId} {j : Job} {source : Address}
    {sink : Option Address} {e : EngineId} (turn : w.turn? a = some (t, j))
    (unlists : j.unlists = some (source, sink, .engine e)) :
    ∃ p, w.seat? e = some p ∧ p.gone = true := by
  rcases turn?_cases turn with ⟨-, task⟩ | ⟨o, -, -, rfl⟩
  · exact h.gone_of_unlists ⟨t, _, task, rfl⟩ unlists
  · cases o <;> cases unlists

end World

/-- **Listeners stay as long as they are needed, and no longer.** In a run in which nothing is
closed and no link fails to unregister listeners, at each moment: the listener of an engine that is
in use is on the hub exactly once, if it has been registered; of an engine that nobody uses, and of
which no task is to take the listener off any more, nothing is on the hub, unless it was left behind
outside the runtime; then its listener is still there, once; and whatever an act takes off the hub
is what its task was to take off, with just these filters, and no listener of an engine in use. -/
theorem listeners_follow_use {w : World} {as : List Act} (new : w.IsNew) (run : w.CanRun as)
    (quiet : ∀ a ∈ as, a.peaceful = true) :
    let v := w.after as
    (∀ e p, v.seat? e = some p → p.cell = .registered → v.InUse e →
      v.hub.registrations.filter (·.listener == .engine e) = [p.registration e]) ∧
    (∀ e, ¬v.InUse e → (∀ j, v.HasJob j → j.takesOff e = false) → ¬w.LeftBehind as e →
      v.hub.registrations.filter (·.listener == .engine e) = []) ∧
    (∀ e, w.LeftBehind as e → ∃ p, v.seat? e = some p ∧
      v.hub.registrations.filter (·.listener == .engine e) = [p.registration e]) ∧
    ∀ a r, a.IsPossible v → a.peaceful = true → r ∈ v.hub.registrations →
      r ∉ (v.act a).hub.registrations →
      (∃ t j, v.turn? a = some (t, j) ∧ j.unlists = some (r.source, r.sink, r.listener)) ∧
      ∀ e, r.listener = .engine e → ¬v.InUse e := by
  intro v
  obtain ⟨tidy, calm⟩ := World.Calm.kept.run run (.of_forall fun a ha _ => quiet a ha) (.new new)
    (.new new)
  obtain ⟨-, docket⟩ := World.Docket.kept.run run (run.mono fun _ _ _ => trivial) (.new new)
    (World.Docket.new new)
  have tended := World.tended_after new run quiet
  have here : ∀ e p, v.seat? e = some p → v.InUse e → p.gone = false :=
    fun e p seat use => use.here calm.listening calm.forsaken docket seat
  refine ⟨fun e p seat registered use => ?_, fun e unused idle kept => ?_, fun e left => ?_,
    fun a r possible quiet' listed lost => ?_⟩
  · exact calm.enrolled.once seat (calm.listed seat registered (here e p seat use))
  · refine List.filter_eq_nil_iff.mpr fun r listed own => ?_
    obtain ⟨-, p, seat, rfl⟩ := calm.enrolled.own r listed e (by simpa using own)
    cases gone : p.gone with
    | true =>
      have nowhere : ∀ p, w.seat? e = some p → p.gone = true → w.Clearing e := by
        obtain ⟨wall, ids, rfl⟩ := new
        intro p seat
        cases e <;> cases seat
      obtain ⟨p', seat', -, detaches⟩ := (World.clearing_or_left_behind run quiet (.new new)
        (.new new) nowhere seat gone).resolve_right kept
      cases seat.symm.trans seat'
      obtain ⟨k, j, task, detaches⟩ := detaches listed
      have takes := idle j ⟨k, _, task, rfl⟩
      cases detaches <;> simp [Job.takesOff] at takes
    | false =>
      refine unused ((tended e p seat gone).imp (fun owned => ?_) .inr)
      rw [World.isOwned, seat]
      simpa using owned
  · obtain ⟨p, seat, -, listed⟩ := (left.stranded run quiet (.new new) (.new new)).gone
    exact ⟨p, seat, calm.enrolled.once seat listed⟩
  · rcases World.unlisted_by tidy possible listed lost with rfl | ⟨t, j, turn, unlists⟩
    · cases quiet'
    · have open_hand : j.closes ≠ true := by
        rcases World.turn?_cases turn with ⟨-, task⟩ | ⟨o, rfl, -, rfl⟩
        · simp [calm.peaceful.jobs j ⟨t, _, task, rfl⟩]
        · simpa [Act.peaceful] using quiet'
      have unlists := unlists.resolve_right open_hand
      refine ⟨⟨t, j, turn, unlists⟩, fun e own use => ?_⟩
      obtain ⟨p, seat, gone⟩ := calm.gone_of_turn turn (own ▸ unlists)
      rw [here e p seat use] at gone
      cases gone

/-- A caller is dropped while its call is pending: its listener stays until the answer has come, and
is then taken off by a task of its own. Then the server is dropped outside the runtime, and its
listener stays. -/
theorem dropped_caller_stops_listening :
    let ids : MessageId.Source := { issue := fun n => .stamped 1 (BitVec.ofNat 74 n) }
    let method : Address := ⟨"server", 2, 1, 1⟩
    let echo : Handler := ⟨0, 0, fun m => .returned m.payload⟩
    let p : Seat :=
      { link := 0, entity := ⟨"client", 1, 1, 0⟩, sink := ⟨"client", 1, 1, 0⟩, handles := 0,
        cell := .registered }
    let w : World := { wall := 0, ids := ids }
    let as : List Act := [.command (.addLink ⟨"client", 1, 1, 0⟩),
      .command (.addLink ⟨"server", 2, 1, 0⟩), .command (.addCaller 0 false),
      .command (.addServer 1), .command (.enter (.serve 0 method echo)),
      .command (.invoke 0 method none .standard), .command (.drop (.caller 0) .inside), .turn 1,
      .turn 2]
    let bs : List Act := [.turn 3, .turn 4, .turn 1]
    let last : Act := .command (.drop (.server 0) .outside)
    w.IsNew ∧ w.CanRun (as ++ bs ++ [.turn 5] ++ [last]) ∧
      (∀ a ∈ as ++ bs ++ [.turn 5] ++ [last], a.peaceful = true) ∧
      (w.after as).seat? (.caller 0) = some p ∧
      (w.after as).hub.registrations.filter (·.listener == .engine (.caller 0)) =
        [p.registration (.caller 0)] ∧
      ¬(w.after (as ++ bs)).InUse (.caller 0) ∧
      (w.after (as ++ bs ++ [.turn 5])).hub.registrations.filter
        (·.listener == .engine (.caller 0)) = [] ∧
      ∃ p, (w.after (as ++ bs ++ [.turn 5] ++ [last])).hub.registrations.filter
        (·.listener == .engine (.server 0)) = [p] := by
  intro ids method echo p w as bs last
  have new : w.IsNew := ⟨0, ids, rfl⟩
  have run : w.CanRun (as ++ bs ++ [.turn 5] ++ [last]) := by decide +kernel
  have quiet : ∀ a ∈ as ++ bs ++ [.turn 5] ++ [last], a.peaceful = true := by decide +kernel
  have run₂ := (Along.append.mp run).1
  have quiet₂ : ∀ a ∈ as ++ bs ++ [.turn 5], a.peaceful = true :=
    fun a ha => quiet a (List.mem_append_left _ ha)
  obtain ⟨run₁, turn⟩ := Along.append.mp run₂
  have quiet₁ : ∀ a ∈ as ++ bs, a.peaceful = true :=
    fun a ha => quiet₂ a (List.mem_append_left _ ha)
  have seat : (w.after as).seat? (.caller 0) = some p := by decide +kernel
  have pends : (w.after as).pendingOf 0 ≠ [] := by decide +kernel
  have once := (listeners_follow_use new (Along.append.mp run₁).1
    fun a ha => quiet₁ a (List.mem_append_left _ ha)).1 _ p seat rfl (.inr (.inl ⟨0, rfl, pends⟩))
  have listed : p.registration (.caller 0) ∈ (w.after (as ++ bs)).hub.registrations := by
    decide +kernel
  have lost : p.registration (.caller 0) ∉
      ((w.after (as ++ bs)).act (.turn 5)).hub.registrations := by
    decide +kernel
  have unused := ((listeners_follow_use new run₁ quiet₁).2.2.2 _ _ turn.1 rfl listed lost).2 _ rfl
  have left : w.LeftBehind (as ++ bs ++ [.turn 5] ++ [last]) (.server 0) :=
    ⟨as ++ bs ++ [.turn 5], last, [], rfl, rfl, by decide +kernel, by decide +kernel⟩
  obtain ⟨q, -, stays⟩ := (listeners_follow_use new run quiet).2.2.1 _ left
  refine ⟨new, run, quiet, seat, once, unused,
    (listeners_follow_use new run₂ quiet₂).2.1 _ ?_ ?_ ?_, _, stays⟩
  · have calls : (w.after (as ++ bs ++ [.turn 5])).pendingOf 0 = [] := by decide +kernel
    exact World.not_inUse (by decide +kernel) (fun i same => by cases same; exact calls)
      (by decide +kernel)
  · have none : (w.after (as ++ bs ++ [.turn 5])).tasks.entries.isEmpty = true := by
      decide +kernel
    exact fun j has => absurd has (World.not_hasJob_of_isEmpty none j)
  · intro left
    have drops := left.mem
    simp [as, bs] at drops

/-- A server that nobody uses any more is on the hub for good, if it was dropped outside the
runtime. -/
theorem server_left_behind :
    let ids : MessageId.Source := { issue := fun n => .stamped 1 (BitVec.ofNat 74 n) }
    let echo : Handler := ⟨0, 0, fun m => .returned m.payload⟩
    let w : World := { wall := 0, ids := ids }
    let as : List Act := [.command (.addLink ⟨"server", 2, 1, 0⟩), .command (.addServer 0),
      .command (.enter (.serve 0 ⟨"server", 2, 1, 1⟩ echo)),
      .command (.drop (.server 0) .outside)]
    w.IsNew ∧ w.CanRun as ∧ (∀ a ∈ as, a.peaceful = true) ∧ ¬(w.after as).InUse (.server 0) ∧
      (∀ j, ¬(w.after as).HasJob j) ∧
      (w.after as).hub.registrations.filter (·.listener == .engine (.server 0)) ≠ [] := by
  intro ids echo w as
  have none : (w.after as).tasks.entries.isEmpty = true := by decide +kernel
  have unused : ¬(w.after as).InUse (.server 0) :=
    World.not_inUse (by decide +kernel) (fun i same => by cases same) (by decide +kernel)
  exact ⟨⟨0, ids, rfl⟩, by decide +kernel, by decide +kernel, unused,
    World.not_hasJob_of_isEmpty none, by decide +kernel⟩

end Switchboard
