import Switchboard.Proofs.Releases

/-! # Closing is tried once

An engine is marked as closed before its listener is taken off the hub, and all who come later go by
this mark: another closing reports success at once, and an engine that goes away leaves a closed
listener alone. So the first closing makes the one attempt there is. If that fails, the listener
stays on the hub for as long as its link is open (`closing_tried_once`).
-/

namespace Switchboard

open World

namespace World

variable {w : World} {a b : Option TaskId × World} {t : TaskId} {e : EngineId} {p : Seat}

/-- An engine has been closed whose listener was registered: the task is at the one attempt to take
the listener off, or it has failed and nobody makes another one, or it has succeeded. -/
inductive TriesOnce (a : Option TaskId × World) (t : TaskId) (e : EngineId) : Prop
  | underway (p : Seat) (seat : a.2.seat? e = some p)
      (task : a.2.tasks.get? t = some ⟨.unregister p.link Address.any (some p.sink) (.engine e)
        (.report .listening), false⟩) (alone : LeftAlone a (some t) e)
  | failed (s : Status) (finished : a.2.Finished t (.error (.failure (.transport s))))
      (registered : a.2.cell? e = some .registered) (alone : LeftAlone a none e)
  | done (finished : a.2.Finished t (.ok ())) (withdrawn : a.2.Withdrawn e)
      (closed : ∃ p, a.2.seat? e = some p ∧ p.closed = true)

theorem LeftAlone.sleep {ms : Nat} {j : Job} (h : LeftAlone (some t, w.park t j) (some t) e) :
    LeftAlone (none, w.sleep t ms j) (some t) e :=
  ⟨h.closed, h.sole, h.late⟩

/-- The attempt has failed, so the hub is as it was, and the one task is gone that minded. -/
theorem LeftAlone.fail {j : Job} {es : List Event} (h : LeftAlone (some t, w.park t j) (some t) e)
    (free : w.tasks.get? t = none) : LeftAlone (none, w.recordAll es) none e := by
  refine ⟨by simpa using h.closed, fun k x task takes => ?_, by simpa [IsClosed] using h.late⟩
  have task : w.tasks.get? k = some x := by simpa using task
  have other : k ≠ t := by
    rintro rfl
    rw [free] at task
    cases task
  have own := h.sole k x (by simpa [other] using task) takes
  exact absurd (Option.some.inj own).symm other

theorem TriesOnce.of_seat {p q : Seat} (seat : b.2.seat? e = some q) (grows : p.Grows q)
    (task : b.2.tasks.get? t = some ⟨.unregister p.link Address.any (some p.sink) (.engine e)
      (.report .listening), false⟩) (alone : LeftAlone b (some t) e) : TriesOnce b t e :=
  .underway q seat (by rw [grows.link, grows.sink, task]) alone

theorem TriesOnce.move (h : TriesOnce a t e) (hm : Move a b) (tidy : a.2.Tidy) (turn : InTurn a)
    (listening : a.2.Listening) (enrolled : a.2.Enrolled) : TriesOnce b t e := by
  cases h with
  | failed s finished registered alone =>
    exact .failed s (finished.of_suffix hm.grows.events) (hm.registered registered)
      (alone.move hm tidy listening fun _ _ => by simp)
  | done finished withdrawn closed =>
    obtain ⟨p, seat, closed⟩ := closed
    obtain ⟨q, hq, grows⟩ := hm.grows.seats e p seat
    exact .done (finished.of_suffix hm.grows.events) (withdrawn.move hm turn listening enrolled)
      ⟨q, hq, grows.closed closed⟩
  | underway p seat task alone =>
    obtain ⟨q, hq, grows⟩ := hm.grows.seats e p seat
    have closed : q.closed = true := by
      obtain ⟨p', seat', closed⟩ := alone.closed
      cases seat.symm.trans seat'
      exact grows.closed closed
    by_cases runs : a.1 = some t
    · have cell : b.2.cell? e = some .registered :=
        hm.registered (enrolled.jobs _ ⟨t, _, task, rfl⟩)
      obtain ⟨w, rfl, free, rfl | ⟨s, -, rfl⟩ | ⟨hub, unregistration, rfl⟩⟩ :=
        hm.unregisters runs task
      · exact .of_seat hq grows (sleep_self ..) alone.sleep
      · exact .failed s (has_recordAll.mpr (.inl (List.mem_singleton.mpr rfl))) cell
          (alone.fail free)
      · refine .done (has_recordAll.mpr (.inl (List.mem_singleton.mpr rfl)))
          ⟨cell, fun r listed own => ?_⟩ ⟨q, hq, closed⟩
        simp only [recordAll_keeps, hub_of_unregistration unregistration, List.mem_filter] at listed
        obtain ⟨-, p', seat', rfl⟩ := enrolled.own r listed.1 e own
        cases seat.symm.trans seat'
        simp [Registration.is, Seat.registration] at listed
    · refine .of_seat hq grows (turn.wakeful.keeps hm tidy task runs rfl)
        (alone.move hm tidy listening fun k goes own => ?_)
      exact runs (goes.trans own.symm)

theorem TriesOnce.outset {act : Act} (h : TriesOnce (none, w) t e) (ho : Outset w act b)
    (tidy : w.Tidy) (listening : w.Listening) : TriesOnce b t e := by
  have grows := ho.grows tidy
  cases h with
  | failed s finished registered alone =>
    exact .failed s (finished.of_suffix grows.events) (ho.registered tidy registered)
      (alone.outset ho tidy listening)
  | done finished withdrawn closed =>
    obtain ⟨p, seat, closed⟩ := closed
    obtain ⟨q, hq, grown⟩ := grows.seats e p seat
    exact .done (finished.of_suffix grows.events) (withdrawn.outset ho tidy)
      ⟨q, hq, grown.closed closed⟩
  | underway p seat task alone =>
    obtain ⟨q, hq, grows⟩ := grows.seats e p seat
    refine .of_seat hq grows ?_ (alone.outset ho tidy listening)
    rcases ho.stays tidy task with same | ⟨cancelled, -⟩
    · exact same
    · cases cancelled

theorem TriesOnce.kept (t : TaskId) (e : EngineId) : Kept (fun _ _ => True) fun a =>
    (((InTurn a ∧ a.2.Listening) ∧ a.2.Enrolled) ∧ a.2.Forsaken) ∧ TriesOnce a t e :=
  Enrolled.forsaken.add (fun tidy ho _ before _ h => h.outset ho tidy before.1.1.2)
    (fun tidy hm before _ h => h.move hm tidy before.1.1.1 before.1.1.2 before.1.2)

theorem TriesOnce.closed (h : TriesOnce a t e) : ∃ p, a.2.seat? e = some p ∧ p.closed = true := by
  cases h with
  | underway p seat task alone => exact alone.closed
  | failed s finished registered alone => exact alone.closed
  | done finished withdrawn closed => exact closed

/-- The closing marks the engine as closed, and has nobody to compete with. -/
theorem triesOnce_of_start (hm : Move a b) (listening : a.2.Listening) (forsaken : a.2.Forsaken)
    (runs : a.1 = some t) (task : a.2.tasks.get? t = some ⟨.start (.close e), false⟩)
    (seat : a.2.seat? e = some p) (opened : p.closed = false) (registered : p.cell = .registered) :
    TriesOnce b t e := by
  have alive : p.gone = false :=
    Bool.eq_false_iff.mpr fun gone => forsaken e p seat gone ⟨_, ⟨t, _, task, rfl⟩, rfl⟩
  have unretired : ¬a.2.Retired e := by
    rintro ⟨q, seat', retired⟩
    cases seat.symm.trans seat'
    rw [opened, alive] at retired
    simp at retired
  obtain ⟨q, seat', listens⟩ := listening.listens e (by rw [cell?, seat, ← registered]; rfl)
  cases seat.symm.trans seat'
  obtain ⟨w, rfl, free, ⟨closed, -⟩ | ⟨-, -, rfl⟩ | ⟨-, unregistered, -⟩⟩ :=
    hm.closing runs task seat
  · rw [opened] at closed
    cases closed
  · have seat : w.seat? e = some p := by simpa using seat
    have marked : ((w.modifySeat (fun p => { p with closed := true }) e).park t
        (.unregister p.link Address.any (some p.sink) (.engine e) (.report .listening))).seat? e =
          some { p with closed := true } := by simp [seat]
    refine .underway _ marked (park_self ..)
      ⟨⟨_, marked, rfl⟩, fun k x task' takes => ?_, fun q seat' _ => ?_⟩
    · simp only [park_keeps, Table.get?_set, modifySeat_keeps] at task'
      split at task'
      · rename_i own
        rw [own]
      · rename_i other
        -- whoever takes the listener off knows that the engine has retired
        have proper := listening.jobs x.job ⟨k, x, by simpa [other] using task', rfl⟩
        refine absurd ?_ unretired
        cases job : x.job with
        | unregister l source sink listener after =>
          rw [job] at proper takes
          obtain rfl : listener = .engine e := by simpa [Job.takesOff] using takes
          exact proper
        | withdraw l sink e' =>
          rw [job] at proper takes
          obtain rfl : e' = e := by simpa [Job.takesOff] using takes
          exact proper
        | _ =>
          rw [job] at takes
          cases takes
    · cases marked.symm.trans seat'
      have listed := listens.imp_right fun h => h.resolve_left unretired
      simpa [IsClosed, Seat.registration] using listed
  · exact absurd registered unregistered

def BeginsClosing (w : World) (c : Act) (t : TaskId) (e : EngineId) : Prop :=
  c = .command (.enter (.close e)) ∧ t = w.tasks.next ∨
    c = .turn t ∧ w.tasks.get? t = some ⟨.start (.close e), false⟩

/-- Who closes an engine that has been closed is told at once that it is done, and nothing is. -/
theorem act_of_closed {c : Act} (seat : w.seat? e = some p) (closed : p.closed = true)
    (begins : w.BeginsClosing c t e) :
    w.newly c = [.finished t (.ok ())] ∧ (w.act c).hub = w.hub := by
  have told : ∀ v : World, v.seat? e = some p → v.close t e = v.record (.finished t (.ok ())) := by
    intro v seat
    simp [close, seat, closed]
  have events : (w.act c).events = [(w.now, .finished t (.ok ()))] ++ w.events ∧
      (w.act c).hub = w.hub := by
    rcases begins with ⟨rfl, rfl⟩ | ⟨rfl, task⟩
    · have same : w.act (.command (.enter (.close e))) =
          { w with tasks := w.tasks.reserve.2 }.close w.tasks.next e := rfl
      rw [same, told _ ((seat?_congr (by simp) (by simp) e).trans seat)]
      exact ⟨rfl, rfl⟩
    · have same : w.act (.turn t) =
          ((w.without t).close t e).releaseAfter t (some e) := run_of_task task
      rw [same, told _ ((seat?_congr (by simp) (by simp) e).trans seat), releaseAfter_hub]
      exact ⟨(releaseAfter_keeps ..).1, rfl⟩
  exact ⟨newly_of_events events.1, events.2⟩

end World

/-- **Closing is tried once.** An engine is closed whose listener has been registered. Once the
closing has a result, it is for good. If it has succeeded, the listener is off the hub. If it has
failed, it was for the link or the hub, no task takes the listener off any more, be it that the
engine is closed again or that it goes away, and the listener is on the hub as long as its link is
open. Whoever closes the engine again meanwhile is told at once that it is done, and the hub stays
as it is. -/
theorem closing_tried_once {w : World} {as bs : List Act} {a : Act} {t : TaskId} {e : EngineId}
    {p : Seat} (new : w.IsNew) (run : w.CanRun (as ++ a :: bs))
    (closes : (w.after as).Closes a t e p) (registered : p.cell = .registered) :
    let v := w.after (as ++ a :: bs)
    (v.tasks.get? t = none → ∃ r, v.Finished t r) ∧
    (v.Finished t (.ok ()) → ∀ r ∈ v.hub.registrations, r.listener ≠ .engine e) ∧
    (∀ f, v.Finished t (.error f) → (∃ s, f = .failure (.transport s)) ∧
      (∀ j, v.HasJob j → j.takesOff e = false) ∧
      (p.registration e ∈ v.hub.registrations ↔ ¬v.IsClosed p.link)) ∧
    ∀ c t', v.BeginsClosing c t' e →
      v.newly c = [.finished t' (.ok ())] ∧ (v.act c).hub = v.hub := by
  intro v
  obtain ⟨⟨⟨⟨-, enrolled⟩, -⟩, tries⟩, q, seat, grows⟩ := closes.after_of run (.new new)
    ⟨⟨⟨.new new, .new new⟩, .new new⟩, .new new⟩ Enrolled.forsaken (TriesOnce.kept t e)
    fun hm before runs task seat =>
      triesOnce_of_start hm before.1.1.2 before.2 runs task seat closes.opened registered
  have results := World.results_after new run
  refine ⟨fun gone => ?_, fun finished => ?_, fun f finished => ?_, fun c t' begins => ?_⟩
  · cases tries with
    | underway p seat task alone => cases gone.symm.trans task
    | failed s failed registered alone => exact ⟨_, failed⟩
    | done finished withdrawn closed => exact ⟨_, finished⟩
  · cases tries with
    | underway p seat task alone => exact absurd finished (results.waiting t _ task _)
    | failed s failed registered alone => cases results.once t _ _ failed finished
    | done finished withdrawn closed => exact withdrawn.unlisted
  · cases tries with
    | underway p seat task alone => exact absurd finished (results.waiting t _ task _)
    | failed s failed registered alone =>
      cases results.once t _ _ failed finished
      refine ⟨⟨s, rfl⟩, fun j => alone.nobody, ?_⟩
      rw [alone.listed_iff enrolled seat grows]
      exact and_iff_right registered
    | done finished' withdrawn closed => cases results.once t _ _ finished finished'
  · obtain ⟨q', seat', closed⟩ := tries.closed
    exact World.act_of_closed seat' closed begins

/-- The link of a caller fails to take its listener off when the caller is closed. It would not fail
again, but the caller is closed a second time and then dropped in vain: the second closing reports
success, and the listener is on the hub in the end. -/
theorem listener_left_by_failed_closing :
    let ids : MessageId.Source := { issue := fun n => .stamped 1 (BitVec.ofNat 74 n) }
    let p : Seat :=
      { link := 0, entity := ⟨"client", 1, 1, 0⟩, sink := ⟨"client", 1, 1, 0⟩,
        cell := .registered }
    let down : Status := ⟨.unavailable, "down"⟩
    let again : Act := .command (.enter (.close (.caller 0)))
    let w : World := { wall := 0, ids := ids }
    let as : List Act := [.command (.addLink ⟨"client", 1, 1, 0⟩), .command (.addCaller 0 false),
      .command (.invoke 0 ⟨"server", 2, 1, 1⟩ none .standard), .turn 0, .turn 1, .fire 10000,
      .turn 0, .command (.setFault 0 .unregister ⟨0, some down⟩)]
    let bs : List Act := [.command (.setFault 0 .unregister {})]
    let cs : List Act := bs ++ [again, .command (.drop (.caller 0) .inside)]
    let v := w.after (as ++ again :: bs)
    w.IsNew ∧ w.CanRun (as ++ again :: cs) ∧ (w.after as).Closes again 2 (.caller 0) p ∧
      v.Finished 2 (.error (.failure (.transport down))) ∧ v.refusal? 0 .unregister = none ∧
      v.newly again = [.finished 3 (.ok ())] ∧
      (w.after (as ++ again :: cs)).tasks.entries.isEmpty = true ∧
      p.registration (.caller 0) ∈ (w.after (as ++ again :: cs)).hub.registrations := by
  intro ids p down again w as bs cs v
  have new : w.IsNew := ⟨0, ids, rfl⟩
  have run : w.CanRun (as ++ again :: cs) := by decide +kernel
  have closes : (w.after as).Closes again 2 (.caller 0) p :=
    ⟨.inl ⟨rfl, by decide +kernel⟩, by decide +kernel, rfl⟩
  have result : v.result? 2 = some (.error (.failure (.transport down))) := by decide +kernel
  have result' : (w.after (as ++ again :: cs)).result? 2 =
      some (.error (.failure (.transport down))) := by decide +kernel
  have opened : ¬(w.after (as ++ again :: cs)).IsClosed p.link := by decide +kernel
  have later : 3 = v.tasks.next := by decide +kernel
  have split : as ++ again :: cs =
      (as ++ again :: bs) ++ [again, .command (.drop (.caller 0) .inside)] := by
    simp [cs]
  obtain ⟨-, -, -, second⟩ :=
    closing_tried_once new (Along.append.mp (split ▸ run)).1 closes rfl
  obtain ⟨-, -, failed, -⟩ := closing_tried_once new run closes rfl
  have listed := (failed _ (World.finished_of_result? result')).2.2.mpr opened
  exact ⟨new, run, closes, World.finished_of_result? result, by decide +kernel,
    (second again 3 (.inl ⟨rfl, later⟩)).1, by decide +kernel, listed⟩

end Switchboard
