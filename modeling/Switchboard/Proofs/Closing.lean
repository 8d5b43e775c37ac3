import Switchboard.Proofs.Deeds
import Switchboard.Proofs.Enrolments

/-! # What a closed engine leaves behind

Closing an engine takes its listener off the hub if it is registered by then. An attempt to register
it that is still on its way, or a task that has not begun one yet, is not told of the closing: it
registers the listener afterwards, and nobody takes it off any more, since the engine has been
closed. So a closed engine listens exactly if its listener was registered too late
(`closed_caller_listens_iff`), and a closed server goes on with what it has in hand and serves what
reaches it through such a listener (`closed_server_serves`).
-/

namespace Switchboard

/-- The task takes the engine's listener off the hub, or is to. -/
def Job.takesOff (e : EngineId) : Job → Bool
  | .unregister _ _ _ l _ => l == .engine e
  | .withdraw _ _ e' => e' == e
  | _ => false

theorem Leads.takesOff {w : World} {t : TaskId} {j j' : Job} {e : EngineId} (h : Leads w t j j')
    (takes : j'.takesOff e = true) :
    j.takesOff e = true ∨ ∃ p, w.seat? e = some p ∧ p.closed = false := by
  cases h with
  | withdraw l sink e' => exact .inl (by simpa [Job.takesOff] using takes)
  | close e' p seat opened registered =>
    obtain rfl : e' = e := by simpa [Job.takesOff] using takes
    exact .inr ⟨p, seat, opened⟩
  | startUnregister l source sink key r => simp [Job.takesOff] at takes
  | _ => cases takes

/-- A task comes to take a listener off in the middle of its work. -/
theorem Leads.continues {w : World} {t : TaskId} {j j' : Job} {e : EngineId} (h : Leads w t j j')
    (takes : j'.takesOff e = true) : j'.begins = false := by
  cases h with
  | withdraw l sink e' => rfl
  | close e' p seat opened registered => rfl
  | startUnregister l source sink key r => rfl
  | _ => cases takes

open World

/-- A task that unregisters a listener waits for the link, or is done with it. -/
theorem Move.unregisters {a b : Option TaskId × World} (hm : Move a b) {t : TaskId} {l : LinkId}
    {source : Address} {sink : Option Address} {listener : Listener} {after : AfterUnregister}
    (runs : a.1 = some t)
    (task : a.2.tasks.get? t = some ⟨.unregister l source sink listener after, false⟩) :
    ∃ w : World, a = (some t, w.park t (.unregister l source sink listener after)) ∧
      w.tasks.get? t = none ∧
      (b = (none, w.sleep t (w.delay l .unregister) (.unregister l source sink listener after)) ∨
      (∃ s, w.unregistration l source sink listener = .error s ∧
        b = (none, w.recordAll (after.events t (.error s)))) ∨
      ∃ hub, w.unregistration l source sink listener = .ok hub ∧
        b = (none, { w with hub := hub }.recordAll (after.events t (.ok ())))) := by
  have job : ∀ {w : World} {t' : TaskId} {j : Job}, a = (some t', w.park t' j) →
      t' = t ∧ j = .unregister l source sink listener after :=
    fun heq => running_task heq runs task
  cases hm with
  | remove seat' unowned alive unheld => cases runs
  | @pass w t' j es next free passes =>
    obtain ⟨rfl, rfl⟩ := job rfl
    cases passes with
    | unregisterRefused _ _ _ _ _ s refusal =>
      exact ⟨w, rfl, free, .inr (.inl ⟨s, refusal, rfl⟩)⟩
    | seatless u _ eq seat' => rcases eq with eq | eq <;> cases eq
  | @doze w t' j ms free dozes =>
    obtain ⟨rfl, rfl⟩ := job rfl
    cases dozes
    exact ⟨w, rfl, free, .inl rfl⟩
  | reply free server replies finish =>
    obtain ⟨rfl, rfl⟩ := job rfl
    cases replies
  | mute free server replies finish =>
    obtain ⟨rfl, rfl⟩ := job rfl
    cases replies
  | @unlist w t' l' source' sink' listener' after' hub free unregistration =>
    obtain ⟨rfl, eq⟩ := job rfl
    cases eq
    exact ⟨w, rfl, free, .inr (.inr ⟨hub, unregistration, rfl⟩)⟩
  | _ =>
    obtain ⟨rfl, eq⟩ := job rfl
    cases eq

namespace World

variable {w : World} {a b : Option TaskId × World} {t : TaskId} {e : EngineId}

/-- The engine's listener has been registered, and is off the hub. -/
structure Withdrawn (w : World) (e : EngineId) : Prop where
  registered : w.cell? e = some .registered
  unlisted : ∀ r ∈ w.hub.registrations, r.listener ≠ .engine e

theorem Withdrawn.move (h : a.2.Withdrawn e) (hm : Move a b) (turn : InTurn a)
    (listening : a.2.Listening) (enrolled : a.2.Enrolled) : b.2.Withdrawn e :=
  ⟨hm.registered h.registered, fun r listed own =>
    h.unlisted r (enrolled.settled hm turn listening h.registered listed own) own⟩

theorem Withdrawn.outset {a : Act} (h : w.Withdrawn e) (ho : Outset w a b) (tidy : w.Tidy) :
    b.2.Withdrawn e :=
  ⟨ho.registered tidy h.registered, fun r listed => h.unlisted r (ho.roster.subset listed)⟩

/-- An engine has been closed whose listener is registered: the task takes the listener off, or has
done so, or could not. -/
inductive Withdraws (a : Option TaskId × World) (t : TaskId) (e : EngineId) : Prop
  | underway (p : Seat) (seat : a.2.seat? e = some p) (registered : p.cell = .registered)
      (task : a.2.tasks.get? t = some ⟨.unregister p.link Address.any (some p.sink) (.engine e)
        (.report .listening), false⟩)
  | failed (r : Refusal) (finished : a.2.Finished t (.error r))
  | done (finished : a.2.Finished t (.ok ())) (withdrawn : a.2.Withdrawn e)

theorem Withdraws.of_seat {p q : Seat} (seat : b.2.seat? e = some q) (grows : p.Grows q)
    (registered : b.2.cell? e = some .registered)
    (task : b.2.tasks.get? t = some ⟨.unregister p.link Address.any (some p.sink) (.engine e)
      (.report .listening), false⟩) : Withdraws b t e := by
  refine .underway q seat ?_ (by rw [grows.link, grows.sink, task])
  simpa [cell?, seat] using registered

theorem Withdraws.move (h : Withdraws a t e) (hm : Move a b) (tidy : a.2.Tidy) (turn : InTurn a)
    (listening : a.2.Listening) (enrolled : a.2.Enrolled) : Withdraws b t e := by
  cases h with
  | failed r finished => exact .failed r (finished.of_suffix hm.grows.events)
  | done finished withdrawn =>
    exact .done (finished.of_suffix hm.grows.events) (withdrawn.move hm turn listening enrolled)
  | underway p seat registered task =>
    have cell : a.2.cell? e = some .registered := by rw [cell?, seat, Option.map_some, registered]
    obtain ⟨q, hq, grows⟩ := hm.grows.seats e p seat
    by_cases runs : a.1 = some t
    · obtain ⟨w, rfl, -, rfl | ⟨s, -, rfl⟩ | ⟨hub, unregistration, rfl⟩⟩ :=
        hm.unregisters runs task
      · exact .of_seat hq grows (hm.registered cell) (sleep_self ..)
      · exact .failed _ (has_recordAll.mpr (.inl (List.mem_singleton.mpr rfl)))
      · refine .done (has_recordAll.mpr (.inl (List.mem_singleton.mpr rfl)))
          ⟨hm.registered cell, fun r listed own => ?_⟩
        simp only [recordAll_keeps, hub_of_unregistration unregistration, List.mem_filter] at listed
        obtain ⟨-, p', seat', rfl⟩ := enrolled.own r listed.1 e own
        cases seat.symm.trans seat'
        simp [Registration.is, Seat.registration] at listed
    · exact .of_seat hq grows (hm.registered cell) (turn.wakeful.keeps hm tidy task runs rfl)

theorem Withdraws.outset {a : Act} (h : Withdraws (none, w) t e) (ho : Outset w a b)
    (tidy : w.Tidy) : Withdraws b t e := by
  have grows := ho.grows tidy
  cases h with
  | failed r finished => exact .failed r (finished.of_suffix grows.events)
  | done finished withdrawn =>
    exact .done (finished.of_suffix grows.events) (withdrawn.outset ho tidy)
  | underway p seat registered task =>
    have cell : w.cell? e = some .registered := by
      rw [cell?, seat, Option.map_some, registered]
    obtain ⟨q, hq, grows⟩ := grows.seats e p seat
    refine .of_seat hq grows (ho.registered tidy cell) ?_
    rcases ho.stays tidy task with same | ⟨cancelled, -⟩
    · exact same
    · cases cancelled

/-- An engine has been closed, and no task but the one, if any, takes its listener off. So if the
listener is on the hub it stays there until its link is closed. -/
structure LeftAlone (a : Option TaskId × World) (but : Option TaskId) (e : EngineId) : Prop where
  closed : ∃ p, a.2.seat? e = some p ∧ p.closed = true
  sole : ∀ k x, a.2.tasks.get? k = some x → x.job.takesOff e = true → but = some k
  late : ∀ p, a.2.seat? e = some p → p.cell = .registered →
    p.registration e ∈ a.2.hub.registrations ∨ a.2.IsClosed p.link

theorem LeftAlone.nobody (h : LeftAlone a none e) {j : Job} (has : a.2.HasJob j) :
    j.takesOff e = false := by
  obtain ⟨k, x, task, rfl⟩ := has
  refine Bool.eq_false_iff.mpr fun takes => ?_
  cases h.sole k x task takes

/-- A move of any other task leaves the listener on the hub. -/
theorem LeftAlone.stays {but : Option TaskId} (h : LeftAlone a but e) (hm : Move a b)
    (other : ∀ k, a.1 = some k → but ≠ some k) {p : Seat}
    (listed : p.registration e ∈ a.2.hub.registrations) :
    p.registration e ∈ b.2.hub.registrations := by
  refine (hm.hub listed).resolve_right fun hx => ?_
  obtain ⟨k, l, after, runs, task⟩ := hx
  exact other k runs (h.sole k _ task (by simp [Job.takesOff, Seat.registration]))

/-- No task comes to take the listener of a closed engine off. -/
theorem LeftAlone.sole_of_move {but : Option TaskId} (h : LeftAlone a but e) (hm : Move a b)
    (tidy : a.2.Tidy) {k : TaskId} {x : Task} (task : b.2.tasks.get? k = some x)
    (takes : x.job.takesOff e = true) : but = some k := by
  obtain ⟨p, seat, closed⟩ := h.closed
  have barred : ∀ {q : Seat}, a.2.seat? e = some q → q.closed ≠ false := by
    intro q seat' opened
    cases seat.symm.trans seat'
    rw [closed] at opened
    cases opened
  have led : ∀ {w : World} {t : TaskId} {j : Job}, a = (some t, w.park t j) →
      Leads w t j x.job → but = some t := by
    intro w t j ha leads
    subst ha
    rcases leads.takesOff takes with before | ⟨q, seat', opened⟩
    · exact h.sole t _ (park_self w t j) before
    · exact absurd opened (barred (by simpa using seat'))
  rcases hm.lineage tidy task with ⟨y, hy, same⟩ | ⟨w, j, ha, leads, -⟩ | ⟨-, begins, new⟩
  · exact h.sole k y hy (same ▸ takes)
  · exact led ha leads
  · rcases new with ⟨w, t, j, -, leads⟩ | ⟨e', q, seat', ⟨opened, -⟩, -, -, withdraw⟩
    · rw [leads.continues takes] at begins
      cases begins
    · rw [withdraw] at takes
      obtain rfl : e' = e := by simpa [Job.takesOff] using takes
      exact absurd opened (barred seat')

theorem LeftAlone.move {but : Option TaskId} (h : LeftAlone a but e) (hm : Move a b)
    (tidy : a.2.Tidy) (listening : a.2.Listening) (other : ∀ k, a.1 = some k → but ≠ some k) :
    LeftAlone b but e := by
  obtain ⟨p, seat, closed⟩ := h.closed
  obtain ⟨q, hq, grows⟩ := hm.grows.seats e p seat
  refine ⟨⟨q, hq, grows.closed closed⟩, fun k x => h.sole_of_move hm tidy,
    fun q' hq' registered => ?_⟩
  cases hq.symm.trans hq'
  obtain ⟨p', seat', moved⟩ := hm.seat hq
  cases seat.symm.trans seat'
  rw [Seat.Grows.registration grows, grows.link, IsClosed, hm.links]
  rcases moved.registered registered with before | ⟨w, k, r, u, hub, rfl, rfl, registration, hub⟩
  · exact (h.late p seat before).imp_left (h.stays hm other)
  · obtain ⟨p', seat', own⟩ := listening.jobs _ (hasJob_park w k _)
    cases seat.symm.trans seat'
    left
    rw [← own, hub, hub_of_registration registration]
    simp

theorem LeftAlone.outset {but : Option TaskId} {act : Act} (h : LeftAlone (none, w) but e)
    (ho : Outset w act b) (tidy : w.Tidy) (listening : w.Listening) : LeftAlone b but e := by
  obtain ⟨p, seat, closed⟩ := h.closed
  obtain ⟨q, hq, grows⟩ := (ho.grows tidy).seats e p seat
  refine ⟨⟨q, hq, grows.closed closed⟩, fun k x task takes => ?_, fun q' hq' registered => ?_⟩
  · rcases ho.lineage task with old | ⟨-, -, ⟨o, -, start⟩ | ⟨l, m, -, deliver⟩ |
      ⟨i, method, payload, options, -, deadline | ⟨c, m, -, -, -, prepare⟩⟩⟩
    · exact h.sole k x old takes
    · rw [start] at takes
      cases takes
    · rw [deliver] at takes
      cases takes
    · rw [deadline] at takes
      cases takes
    · rw [prepare] at takes
      cases takes
  · rcases seat_of_outset ho hq' with ⟨p', handles, seat', rfl, -⟩ | ⟨-, vacant, -⟩
    · rcases h.late p' seat' registered with listed | shut
      · exact listed_of_outset ho (listening.linked e p' seat') listed
      · exact .inr (shut.outset ho tidy)
    · rw [vacant] at registered
      cases registered

/-- Such an engine is on the hub if its listener was registered, and its link is open. -/
theorem LeftAlone.listed_iff {but : Option TaskId} {p q : Seat} (h : LeftAlone a but e)
    (enrolled : a.2.Enrolled) (seat : a.2.seat? e = some q) (grows : p.Grows q) :
    p.registration e ∈ a.2.hub.registrations ↔
      a.2.cell? e = some .registered ∧ ¬a.2.IsClosed p.link := by
  constructor
  · exact fun listed => ⟨(enrolled.own _ listed e rfl).1, enrolled.opened _ listed⟩
  · intro late
    obtain ⟨cell, opened⟩ := late
    have registered : q.cell = .registered := by simpa [cell?, seat] using cell
    have listed := h.late q seat registered
    rw [Seat.Grows.registration grows, grows.link] at listed
    exact listed.resolve_right opened

/-- An engine has been closed whose listener is not registered: this is done at once, and nobody
will take the listener off if it is registered after all. -/
structure Deaf (a : Option TaskId × World) (t : TaskId) (e : EngineId) : Prop where
  finished : a.2.Finished t (.ok ())
  closed : ∃ p, a.2.seat? e = some p ∧ p.closed = true
  nobody : ∀ j, a.2.HasJob j → j.takesOff e = false
  late : ∀ p, a.2.seat? e = some p → p.cell = .registered →
    p.registration e ∈ a.2.hub.registrations ∨ a.2.IsClosed p.link

theorem Deaf.alone (h : Deaf a t e) : LeftAlone a none e := by
  refine ⟨h.closed, fun k x task takes => ?_, h.late⟩
  rw [h.nobody _ ⟨k, x, task, rfl⟩] at takes
  cases takes

theorem LeftAlone.deaf (h : LeftAlone a none e) (finished : a.2.Finished t (.ok ())) :
    Deaf a t e :=
  ⟨finished, h.closed, fun _ => h.nobody, h.late⟩

theorem Deaf.move (h : Deaf a t e) (hm : Move a b) (tidy : a.2.Tidy) (listening : a.2.Listening) :
    Deaf b t e :=
  (h.alone.move hm tidy listening fun _ _ => by simp).deaf
    (h.finished.of_suffix hm.grows.events)

theorem Deaf.outset {a : Act} (h : Deaf (none, w) t e) (ho : Outset w a b) (tidy : w.Tidy)
    (listening : w.Listening) : Deaf b t e :=
  (h.alone.outset ho tidy listening).deaf (h.finished.of_suffix (ho.grows tidy).events)

/-! ## Closing -/

/-- The act closes the engine under the key of the task. The engine is open, and sits so on its
link. -/
structure Closes (w : World) (a : Act) (t : TaskId) (e : EngineId) (p : Seat) : Prop where
  starts : a = .command (.enter (.close e)) ∧ t = w.tasks.next ∨
    a = .turn t ∧ w.tasks.get? t = some ⟨.start (.close e), false⟩
  seat : w.seat? e = some p
  opened : p.closed = false

/-- What the closing of an engine comes to hangs on whether its listener was registered. -/
def Closed (a : Option TaskId × World) (t : TaskId) (e : EngineId) (p : Seat) : Prop :=
  p.cell = .registered ∧ Withdraws a t e ∨ p.cell ≠ .registered ∧ Deaf a t e

/-- What has come of it when it has succeeded. -/
def Over (a : Option TaskId × World) (t : TaskId) (e : EngineId) (p : Seat) : Prop :=
  p.cell = .registered ∧ a.2.Withdrawn e ∨ p.cell ≠ .registered ∧ Deaf a t e

theorem Closed.kept (t : TaskId) (e : EngineId) (p : Seat) : Kept (fun _ _ => True) fun a =>
    ((InTurn a ∧ a.2.Listening) ∧ a.2.Enrolled) ∧ Closed a t e p :=
  Enrolled.kept.add
    (fun tidy ho _ before _ h => h.imp (.imp_right fun h => h.outset ho tidy)
      (.imp_right fun h => h.outset ho tidy before.1.2))
    (fun tidy hm before _ h =>
      h.imp (.imp_right fun h => h.move hm tidy before.1.1 before.1.2 before.2)
        (.imp_right fun h => h.move hm tidy before.1.2))

theorem Over.kept (t : TaskId) (e : EngineId) (p : Seat) : Kept (fun _ _ => True) fun a =>
    ((InTurn a ∧ a.2.Listening) ∧ a.2.Enrolled) ∧ Over a t e p :=
  Enrolled.kept.add
    (fun tidy ho _ before _ h => h.imp (.imp_right fun h => h.outset ho tidy)
      (.imp_right fun h => h.outset ho tidy before.1.2))
    (fun tidy hm before _ h =>
      h.imp (.imp_right fun h => h.move hm before.1.1 before.1.2 before.2)
        (.imp_right fun h => h.move hm tidy before.1.2))

/-- The first move of a closing. -/
theorem closed_of_start {p : Seat} (hm : Move a b) (enrolled : a.2.Enrolled) (runs : a.1 = some t)
    (task : a.2.tasks.get? t = some ⟨.start (.close e), false⟩) (seat : a.2.seat? e = some p)
    (opened : p.closed = false) : Closed b t e p := by
  obtain ⟨w, rfl, free, ⟨closed, -⟩ | ⟨-, registered, rfl⟩ | ⟨-, unregistered, rfl⟩⟩ :=
    hm.closing runs task seat
  · rw [opened] at closed
    cases closed
  · have seat : w.seat? e = some p := by simpa using seat
    exact .inl ⟨registered, .underway { p with closed := true } (by simp [seat]) registered
      (park_self ..)⟩
  · have seat : w.seat? e = some p := by simpa using seat
    have seat' : (w.modifySeat (fun p => { p with closed := true }) e).seat? e =
        some { p with closed := true } := by simp [seat]
    refine .inr ⟨unregistered, has_record.mpr (.inl rfl), ⟨_, seat', rfl⟩, fun j hj => ?_,
      fun q hq registered => ?_⟩
    · -- whoever takes the listener off knows that it has been registered
      have hj : (w.park t (.start (.close e))).HasJob j :=
        (hj.of_same (by simp)).of_sub ((Table.Sub.refl _).set free _)
      have minds := enrolled.jobs j hj
      refine Bool.eq_false_iff.mpr fun takes => unregistered ?_
      have registered : (w.park t (.start (.close e))).cell? e = some .registered := by
        cases j with
        | unregister l source sink listener after =>
          obtain rfl : listener = .engine e := by simpa [Job.takesOff] using takes
          exact minds
        | withdraw l sink e' =>
          obtain rfl : e' = e := by simpa [Job.takesOff] using takes
          exact minds
        | _ => cases takes
      simpa [cell?, seat] using registered
    · cases seat'.symm.trans hq
      exact absurd registered unregistered

section Acts

variable {R P : Option TaskId × World → Prop} {p : Seat}

/-- What the first move of a closing brings about, and all that follows keeps, holds at the end of
the act. -/
theorem Closes.act_of {a : Act} (closes : w.Closes a t e p) (possible : a.IsPossible w)
    (tidy : w.Tidy) (before : R (none, w)) (base : Kept (fun _ _ => True) R)
    (kept : Kept (fun _ _ => True) fun x => R x ∧ P x)
    (start : ∀ {x y}, Move x y → R x → x.1 = some t →
      x.2.tasks.get? t = some ⟨.start (.close e), false⟩ → x.2.seat? e = some p → P y) :
    P (none, w.act a) := by
  obtain ⟨b, ho, hm⟩ := act_moves tidy.tasks possible
  suffices ∀ c, Moves b c → (c.2.Tidy ∧ R c) ∧
      (c.1 = some t ∧ c.2.tasks.get? t = some ⟨.start (.close e), false⟩ ∧
        c.2.seat? e = some p ∨ P c) by
    rcases (this _ hm).2 with ⟨runs, -⟩ | done
    · cases runs
    · exact done
  intro c hc
  induction hc with
  | refl =>
    obtain ⟨runs, task, callers, servers⟩ := ho.starts closes.starts
    have seats := seat?_congr (v := b.2) (w := w) (by simp [callers]) (by simp [servers]) e
    exact ⟨⟨tidy.outset ho, base.outset tidy ho trivial before⟩,
      .inl ⟨runs, task, seats.trans closes.seat⟩⟩
  | @tail c d _ last ih =>
    obtain ⟨⟨tidy, before⟩, ⟨runs, task, seat⟩ | done⟩ := ih
    · exact ⟨⟨tidy.move last, base.move tidy last before⟩,
        .inr (start last before runs task seat)⟩
    · exact ⟨⟨tidy.move last, base.move tidy last before⟩,
        .inr (kept.move tidy last ⟨before, done⟩).2⟩

/-- It holds at all times since. -/
theorem Closes.after_of {as bs : List Act} {a : Act} (closes : (w.after as).Closes a t e p)
    (run : w.CanRun (as ++ a :: bs)) (tidy : w.Tidy) (before : R (none, w))
    (base : Kept (fun _ _ => True) R) (kept : Kept (fun _ _ => True) fun x => R x ∧ P x)
    (start : ∀ {x y}, Move x y → R x → x.1 = some t →
      x.2.tasks.get? t = some ⟨.start (.close e), false⟩ → x.2.seat? e = some p → P y) :
    (R (none, w.after (as ++ a :: bs)) ∧ P (none, w.after (as ++ a :: bs))) ∧
      ∃ q, (w.after (as ++ a :: bs)).seat? e = some q ∧ p.Grows q := by
  obtain ⟨has, possible, hbs⟩ := Along.append.mp run
  have always : ∀ {v : World} {cs : List Act}, v.CanRun cs → Along (fun _ _ => True) v cs :=
    fun run => run.mono fun _ _ _ => trivial
  obtain ⟨tidy, before⟩ := base.run has (always has) tidy before
  have done := closes.act_of possible tidy before base kept start
  have next := base.act possible trivial tidy before
  have later : (w.after as).CanRun (a :: bs) := ⟨possible, hbs⟩
  have grows := (grows_after tidy later).2.seats e p closes.seat
  rw [after_append]
  exact ⟨(kept.run hbs (always hbs) next.1 ⟨next.2, done⟩).2, grows⟩

end Acts

/-- Since its closing, an engine is as its closing has left it. -/
theorem closed_after {as bs : List Act} {a : Act} {p : Seat} (new : w.IsNew)
    (run : w.CanRun (as ++ a :: bs)) (closes : (w.after as).Closes a t e p) :
    (((InTurn (none, w.after (as ++ a :: bs)) ∧ (w.after (as ++ a :: bs)).Listening) ∧
      (w.after (as ++ a :: bs)).Enrolled) ∧ Closed (none, w.after (as ++ a :: bs)) t e p) ∧
      ∃ q, (w.after (as ++ a :: bs)).seat? e = some q ∧ p.Grows q :=
  closes.after_of run (.new new) ⟨⟨.new new, .new new⟩, .new new⟩ Enrolled.kept
    (Closed.kept t e p) fun hm before runs task seat =>
      closed_of_start hm before.2 runs task seat closes.opened

theorem Closed.over {v : World} {p : Seat} (h : Closed (none, v) t e p) (results : v.Results)
    (finished : v.Finished t (.ok ())) : Over (none, v) t e p := by
  refine h.imp (.imp_right fun h => ?_) id
  cases h with
  | underway p seat registered task => exact absurd finished (results.waiting t _ task _)
  | failed r failed => cases results.once t _ _ failed finished
  | done finished withdrawn => exact withdrawn

theorem Closed.ended {v : World} {p : Seat} (h : Closed (none, v) t e p)
    (gone : v.tasks.get? t = none) : ∃ r, v.Finished t r := by
  rcases h with ⟨-, h⟩ | ⟨-, h⟩
  · cases h with
    | underway p seat registered task => cases gone.symm.trans task
    | failed r finished => exact ⟨_, finished⟩
    | done finished withdrawn => exact ⟨_, finished⟩
  · exact ⟨_, h.finished⟩

/-- An engine whose closing is over is on the hub exactly if its listener was registered late. -/
theorem Over.listed_iff {p q : Seat} (h : Over a t e p) (enrolled : a.2.Enrolled)
    (seat : a.2.seat? e = some q) (grows : p.Grows q) :
    p.registration e ∈ a.2.hub.registrations ↔
      p.cell ≠ .registered ∧ a.2.cell? e = some .registered ∧ ¬a.2.IsClosed p.link := by
  constructor
  · intro listed
    refine ⟨fun registered => ?_, (enrolled.own _ listed e rfl).1, enrolled.opened _ listed⟩
    rcases h with ⟨-, withdrawn⟩ | ⟨unregistered, -⟩
    · exact withdrawn.unlisted _ listed rfl
    · exact unregistered registered
  · intro late
    obtain ⟨unregistered, cell, opened⟩ := late
    rcases h with ⟨registered, -⟩ | ⟨-, deaf⟩
    · exact absurd registered unregistered
    · exact (deaf.alone.listed_iff enrolled seat grows).mpr ⟨cell, opened⟩

/-- The one registration that an engine can have on the hub is its own. -/
theorem Enrolled.eq_registration {p q : Seat} (h : w.Enrolled) (seat : w.seat? e = some q)
    (grows : p.Grows q) {r : Registration} (listed : r ∈ w.hub.registrations)
    (own : r.listener = .engine e) : r = p.registration e := by
  obtain ⟨-, q', seat', rfl⟩ := h.own r listed e own
  cases seat.symm.trans seat'
  exact Seat.Grows.registration grows e

end World

/-! ## A closed caller -/

/-- **A closed caller listens exactly if its listener was registered too late.** Once the closing of
a caller has a result it is for good, and if it has succeeded, then at every later moment the
caller's listener is on the hub exactly if it was not registered yet when the caller was closed, has
been registered since, and its link is open. A listener that was registered before is off the hub
for good. -/
theorem closed_caller_listens_iff {w : World} {as bs : List Act} {a : Act} {t : TaskId}
    {i : CallerId} {p : Seat} (new : w.IsNew) (run : w.CanRun (as ++ a :: bs))
    (closes : (w.after as).Closes a t (.caller i) p) :
    let v := w.after (as ++ a :: bs)
    (v.tasks.get? t = none → ∃ r, v.Finished t r) ∧
    (v.Finished t (.ok ()) →
      ((∃ r ∈ v.hub.registrations, r.listener = .engine (.caller i)) ↔
        p.cell ≠ .registered ∧ v.cell? (.caller i) = some .registered ∧ ¬v.IsClosed p.link)) := by
  intro v
  obtain ⟨⟨⟨-, enrolled⟩, closed⟩, q, seat, grows⟩ := World.closed_after new run closes
  refine ⟨closed.ended, fun finished => ?_⟩
  have past := closed.over (World.results_after new run) finished
  rw [← past.listed_iff enrolled seat grows]
  constructor
  · intro hx
    obtain ⟨r, listed, own⟩ := hx
    exact enrolled.eq_registration seat grows listed own ▸ listed
  · exact fun listed => ⟨_, listed, rfl⟩

/-- A caller is closed while the task of a call has not asked for its listener yet. The task
registers it afterwards, and it stays when all is done and the caller is gone. -/
theorem closed_caller_left_listening :
    let ids : MessageId.Source := { issue := fun n => .stamped 1 (BitVec.ofNat 74 n) }
    let p : Seat := { link := 0, entity := ⟨"client", 1, 1, 0⟩, sink := ⟨"client", 1, 1, 0⟩ }
    let w : World := { wall := 0, ids := ids }
    let as : List Act := [.command (.addLink ⟨"client", 1, 1, 0⟩), .command (.addCaller 0 false),
      .command (.invoke 0 ⟨"server", 2, 1, 1⟩ none .standard)]
    let a : Act := .command (.enter (.close (.caller 0)))
    let bs : List Act := [.turn 0, .turn 1, .fire 10000, .turn 0,
      .command (.drop (.caller 0) .inside)]
    w.IsNew ∧ w.CanRun (as ++ a :: bs) ∧ (w.after as).Closes a 2 (.caller 0) p ∧
      (w.after (as ++ a :: bs)).Finished 2 (.ok ()) ∧
      (w.after (as ++ a :: bs)).tasks.entries.isEmpty = true ∧
      ∃ r ∈ (w.after (as ++ a :: bs)).hub.registrations, r.listener = .engine (.caller 0) := by
  intro ids p w as a bs
  have new : w.IsNew := ⟨0, ids, rfl⟩
  have run : w.CanRun (as ++ a :: bs) := by decide +kernel
  have closes : (w.after as).Closes a 2 (.caller 0) p :=
    ⟨.inl ⟨rfl, by decide +kernel⟩, by decide +kernel, rfl⟩
  have result : ((w.after (as ++ a :: bs)).result? 2).bind Except.toOption = some () := by
    decide +kernel
  obtain ⟨r, hr, ok⟩ := Option.bind_eq_some_iff.mp result
  cases r with
  | error e => cases ok
  | ok u =>
    have finished := World.finished_of_result? hr
    have late : p.cell ≠ .registered ∧
        (w.after (as ++ a :: bs)).cell? (.caller 0) = some .registered ∧
        ¬(w.after (as ++ a :: bs)).IsClosed p.link := by
      decide +kernel
    exact ⟨new, run, closes, finished, by decide +kernel,
      ((closed_caller_listens_iff new run closes).2 finished).mpr late⟩

/-! ## A closed server -/

/-- A task that begins with a message in hand for a server has it from the hub. -/
theorem Leads.recipient {w : World} {t : TaskId} {j j' : Job} {s : ServerId} {m : Message}
    (h : Leads w t j j') (begins : j'.begins = true) (hand : j'.InHand s m) :
    Listener.engine (.server s) ∈ w.hub.recipients m := by
  cases hand with
  | delivery =>
    cases h with
    | broadcast l m after listener accepted recipient => exact recipient
  | handling hd => cases begins

namespace World

variable {w u : World} {a b : Option TaskId × World} {t : TaskId} {s : ServerId} {p : Seat}
  {m : Message}

/-- In the act the server enters a handler with the message, or answers it. -/
def Serves (w : World) (a : Act) (s : ServerId) (m : Message) : Prop :=
  (∃ key, .handled s key m ∈ w.newly a) ∨ ∃ r, .answered s m r ∈ w.newly a

theorem Serves.inHand {a : Act} (h : w.Serves a s m) (tidy : w.Tidy) (possible : a.IsPossible w) :
    ∃ k j, a = .turn k ∧ w.tasks.get? k = some ⟨j, false⟩ ∧ j.InHand s m := by
  obtain ⟨e, he, concerns⟩ : ∃ e ∈ w.newly a, e.Concerns s m := by
    rcases h with ⟨key, handled⟩ | ⟨r, answered⟩
    · exact ⟨_, handled, .handled key⟩
    · exact ⟨_, answered, .answered r⟩
  obtain ⟨k, j, ha, task, stems⟩ := newly_dealt tidy possible he concerns.deals
  exact ⟨k, j, ha, task, concerns.inHand stems⟩

/-- The server's listener was not registered when the server was closed, and has been since. -/
def Late (w : World) (s : ServerId) (p : Seat) : Prop :=
  p.cell ≠ .registered ∧ w.cell? (.server s) = some .registered

/-- Whatever is in hand for the server was in hand of the same task in the earlier world, if the
server's listener has not been registered late. -/
def Remains (u : World) (s : ServerId) (p : Seat) (w : World) : Prop :=
  ∀ k x m, w.tasks.get? k = some x → x.job.InHand s m →
    (∃ y, u.tasks.get? k = some y ∧ y.job.InHand s m) ∨ w.Late s p

theorem Over.late_of_recipient {q : Seat} (past : Over a t (.server s) p)
    (enrolled : a.2.Enrolled) (seat : a.2.seat? (.server s) = some q) (grows : p.Grows q)
    (recipient : Listener.engine (.server s) ∈ a.2.hub.recipients m) : a.2.Late s p := by
  obtain ⟨r, listed, -, own⟩ := Hub.mem_recipients.mp recipient
  have listed := enrolled.eq_registration seat grows listed own ▸ listed
  have late := (past.listed_iff enrolled seat grows).mp listed
  exact ⟨late.1, late.2.1⟩

theorem Remains.move (h : u.Remains s p a.2) (hm : Move a b) (tidy : a.2.Tidy)
    (late : ∀ m, Listener.engine (.server s) ∈ a.2.hub.recipients m → a.2.Late s p) :
    u.Remains s p b.2 := by
  have later : a.2.Late s p → b.2.Late s p := fun h => ⟨h.1, hm.registered h.2⟩
  intro k x m task hand
  rcases hm.lineage tidy task with ⟨y, hy, same⟩ | ⟨w, j, rfl, leads, other⟩ | ⟨-, begins, new⟩
  · exact (h k y m hy (same ▸ hand)).imp_right later
  · have before := leads.inHand other hand
    exact (h k ⟨j, false⟩ m (park_self w k j) before).imp_right later
  · rcases new with ⟨w, k', j, rfl, leads⟩ | ⟨e, q, -, -, -, -, withdraw⟩
    · exact .inr (later (late m (leads.recipient begins hand)))
    · rw [withdraw] at hand
      cases hand

theorem Remains.outset {act : Act} (h : u.Remains s p w) (ho : Outset w act b) (tidy : w.Tidy)
    (hub : ∀ m, act ≠ .inbound (.engine (.server s)) m) : u.Remains s p b.2 := by
  intro k x m task hand
  rcases ho.lineage task with old | ⟨-, -, ⟨o, -, start⟩ | ⟨l, m', ha, deliver⟩ |
    ⟨i, method, payload, options, -, deadline | ⟨c, r, -, -, -, prepare⟩⟩⟩
  · exact (h k x m old hand).imp_right fun late => ⟨late.1, ho.registered tidy late.2⟩
  · rw [start] at hand
    cases hand
  · rw [deliver] at hand
    cases hand
    exact absurd ha (hub m)
  · rw [deadline] at hand
    cases hand
  · rw [prepare] at hand
    cases hand

theorem Remains.kept (u : World) (t : TaskId) (s : ServerId) (p : Seat) :
    Kept (fun _ a => ∀ m, a ≠ .inbound (.engine (.server s)) m) fun a =>
      ((((InTurn a ∧ a.2.Listening) ∧ a.2.Enrolled) ∧ Over a t (.server s) p) ∧
        ∃ q, a.2.seat? (.server s) = some q ∧ p.Grows q) ∧ u.Remains s p a.2 :=
  (((Over.kept t (.server s) p).mono fun _ _ _ => trivial).add
    (fun tidy ho _ _ _ h => by
      obtain ⟨q, hq, grows⟩ := h
      obtain ⟨r, hr, grows'⟩ := (ho.grows tidy).seats _ q hq
      exact ⟨r, hr, grows.trans grows'⟩)
    (fun _ hm _ _ h => by
      obtain ⟨q, hq, grows⟩ := h
      obtain ⟨r, hr, grows'⟩ := hm.seats _ q hq
      exact ⟨r, hr, grows.trans grows'⟩)).add
    (fun tidy ho hub _ _ h => h.outset ho tidy hub)
    (fun tidy hm before _ h => by
      obtain ⟨⟨⟨-, enrolled⟩, past⟩, q, seat, grows⟩ := before
      exact h.move hm tidy fun m => past.late_of_recipient enrolled seat grows)

end World

/-- **A closed server serves what it had in hand, and what reaches it since its listener was
registered too late.** -/
theorem closed_server_serves {w : World} {as bs cs : List Act} {a : Act} {t : TaskId}
    {s : ServerId} {p : Seat} (new : w.IsNew) (run : w.CanRun ((as ++ a :: bs) ++ cs))
    (closes : (w.after as).Closes a t (.server s) p)
    (finished : (w.after (as ++ a :: bs)).Finished t (.ok ()))
    (hub : ∀ m, .inbound (.engine (.server s)) m ∉ cs) :
    let u := w.after (as ++ a :: bs)
    ∀ ps qs, cs = ps ++ qs →
      (∀ m, .engine (.server s) ∈ (u.after ps).hub.recipients m ↔
        (u.after ps).Late s p ∧ ¬(u.after ps).IsClosed p.link ∧
          (p.registration (.server s)).accepts m = true) ∧
      ∀ c rs m, qs = c :: rs → (u.after ps).Serves c s m →
        ∃ k, c = .turn k ∧
          ((∃ y, u.tasks.get? k = some y ∧ y.job.InHand s m) ∨ (u.after ps).Late s p) := by
  intro u ps qs hcs
  obtain ⟨run, hcs'⟩ := Along.append.mp run
  obtain ⟨⟨before, closed⟩, q, seat, grows⟩ := World.closed_after new run closes
  have tidy := (World.grows_after (.new new) run).1
  have past := closed.over (World.results_after new run) finished
  subst hcs
  obtain ⟨hps, hqs⟩ := Along.append.mp hcs'
  have known : Along (fun _ a => ∀ m, a ≠ .inbound (.engine (.server s)) m) u ps :=
    Along.of_forall fun c hc _ m he => hub m (List.mem_append_left _ (he ▸ hc))
  obtain ⟨tidy, ⟨⟨⟨-, enrolled⟩, past⟩, q, seat, grows⟩, remains⟩ :=
    (World.Remains.kept u t s p).run hps known tidy
      ⟨⟨⟨before, past⟩, q, seat, grows⟩, fun k x m task hand => .inl ⟨x, task, hand⟩⟩
  refine ⟨fun m => ?_, fun c rs m hqs' serves => ?_⟩
  · have late := past.listed_iff enrolled seat grows
    rw [Hub.mem_recipients]
    constructor
    · intro hx
      obtain ⟨r, listed, accepts, own⟩ := hx
      obtain rfl := enrolled.eq_registration seat grows listed own
      obtain ⟨unregistered, registered, opened⟩ := late.mp listed
      exact ⟨⟨unregistered, registered⟩, opened, accepts⟩
    · intro hx
      obtain ⟨⟨unregistered, registered⟩, opened, accepts⟩ := hx
      exact ⟨_, late.mpr ⟨unregistered, registered, opened⟩, accepts, rfl⟩
  · subst hqs'
    obtain ⟨k, j, hc, task, hand⟩ := serves.inHand tidy hqs.1
    exact ⟨k, hc, remains k _ m task hand⟩

/-- A server is closed while a registration of its listener is on its way. The registration comes
through afterwards, and a request that is sent then enters the handler. -/
theorem closed_server_handled_late :
    let ids : MessageId.Source := { issue := fun n => .stamped 1 (BitVec.ofNat 74 n) }
    let method : Address := ⟨"server", 2, 1, 1⟩
    let echo : Handler := ⟨0, 0, fun m => .returned m.payload⟩
    let p : Seat :=
      { link := 0, entity := ⟨"server", 2, 1, 0⟩, sink := ⟨"server", 2, 1, Address.anyResource⟩,
        cell := .attempting [] }
    let w : World := { wall := 0, ids := ids }
    let as : List Act := [.command (.addLink ⟨"server", 2, 1, 0⟩), .command (.addServer 0),
      .command (.setFault 0 .register ⟨10, none⟩), .command (.enter (.serve 0 method echo))]
    let a : Act := .command (.enter (.close (.server 0)))
    let ps : List Act := [.fire 10, .turn 0, .command (.addLink ⟨"client", 1, 1, 0⟩),
      .command (.addCaller 1 false), .command (.invoke 0 method none .standard), .turn 3]
    let u := w.after (as ++ [a])
    w.IsNew ∧ w.CanRun ((as ++ [a]) ++ (ps ++ [.turn 4])) ∧
      (w.after as).Closes a 1 (.server 0) p ∧ u.Finished 1 (.ok ()) ∧
      (∀ m, .inbound (.engine (.server 0)) m ∉ ps ++ [.turn 4]) ∧
      ∃ m, m.attributes.isRequest = true ∧ (u.after ps).Serves (.turn 4) 0 m ∧
        (u.after ps).Late 0 p := by
  intro ids method echo p w as a ps u
  have new : w.IsNew := ⟨0, ids, rfl⟩
  have run : w.CanRun ((as ++ [a]) ++ (ps ++ [.turn 4])) := by decide +kernel
  have closes : (w.after as).Closes a 1 (.server 0) p :=
    ⟨.inl ⟨rfl, by decide +kernel⟩, by decide +kernel, rfl⟩
  have result : (u.result? 1).bind Except.toOption = some () := by decide +kernel
  obtain ⟨r, hr, ok⟩ := Option.bind_eq_some_iff.mp result
  cases r with
  | error e => cases ok
  | ok _ =>
    have finished : u.Finished 1 (.ok ()) := World.finished_of_result? hr
    have hub : ∀ m, .inbound (.engine (.server 0)) m ∉ ps ++ [.turn 4] := by simp [ps]
    have enters : ((u.after ps).newly (.turn 4)).any (Event.entersWith 0 (ids.issue 0)) = true := by
      decide +kernel
    obtain ⟨e, he, handled⟩ := List.any_eq_true.mp enters
    cases e with
    | handled s key m =>
      simp only [Event.entersWith, Bool.and_eq_true, beq_iff_eq] at handled
      obtain ⟨⟨rfl, request⟩, -⟩ := handled
      have serves : (u.after ps).Serves (.turn 4) 0 m := .inl ⟨key, he⟩
      obtain ⟨k, hk, late⟩ := (closed_server_serves new run closes finished hub ps [.turn 4]
        rfl).2 _ _ m rfl serves
      cases hk
      refine ⟨new, run, closes, finished, hub, m, request, serves, late.resolve_left fun hx => ?_⟩
      obtain ⟨y, task, -⟩ := hx
      have gone : (u.tasks.get? 4).isNone = true := by decide +kernel
      rw [task] at gone
      cases gone
    | _ => cases handled

end Switchboard
