import Switchboard.Proofs.Attempts
import Switchboard.Proofs.Pending

/-! # Deadlines

Time moves on only when no task is ready. Then the task that watches a call is started at the
moment at which the call is accepted, sleeps until the timeout has passed, and is woken at that
very moment and not before: nobody but its timer wakes it, and whoever else ends the call cancels
it. `Stage` says where such a task stands, `Timed` that the task of every pending call stands
somewhere. Main statement: `deadlines_kept`.
-/

namespace Switchboard

open History

open World in
theorem World.invoke_now (w : World) (i : CallerId) (method : Address) (payload : Option Payload)
    (options : CallOptions) : (w.invoke i method payload options).2.now = w.now := by
  rcases invoke_cases w i method payload options with
    ⟨e, he⟩ | ⟨e, he⟩ | ⟨c, m, -, -, -, -, he⟩ <;> rw [he] <;> simp

theorem Move.now {a b : Option TaskId × World} (hm : Move a b) : b.2.now = a.2.now := by
  cases hm with
  | @call w v t i method payload options accepted free invoked =>
    have now := World.invoke_now w i method payload options
    rw [invoked] at now
    exact now
  | @callRefused w v t i method payload options e free invoked =>
    have now := World.invoke_now w i method payload options
    rw [invoked] at now
    exact now
  | _ => simp

namespace World

variable {w : World} {k : TaskId} {τ : Timer}

theorem cancel_timer (w : World) {t : TaskId} (other : τ.task ≠ t) :
    τ ∈ (w.cancel t).timers ↔ τ ∈ w.timers := by
  unfold cancel
  split
  · rfl
  · simp [other]

theorem complete_timer {i : CallerId} {id : MessageId} {cause : Cause}
    (kept : ∃ x, (w.complete i id cause).tasks.get? τ.task = some x ∧ x.cancelled = false) :
    τ ∈ (w.complete i id cause).timers ↔ τ ∈ w.timers := by
  obtain ⟨x, task, alive⟩ := kept
  cases hp : (w.callers.get? i).bind (·.pending? id) with
  | none => rw [complete_of_none hp]; rfl
  | some p =>
    have other : τ.task ≠ p.deadline := by
      intro same
      rw [same] at task
      rw [complete_cancels hp cause task] at alive
      cases alive
    rw [complete_of_some hp]
    simp only [resolve_keeps]
    exact cancel_timer _ other

end World

open World in
/-- The timers of a task that does not run and is not cancelled are left alone in a move. -/
theorem Move.timer_iff {a b : Option TaskId × World} (hm : Move a b) {τ : Timer}
    (asleep : a.1 ≠ some τ.task)
    (kept : ∃ x, b.2.tasks.get? τ.task = some x ∧ x.cancelled = false) :
    τ ∈ b.2.timers ↔ τ ∈ a.2.timers := by
  have slept : ∀ {w : World} {t : TaskId} {ms : Nat}, a.1 = some t →
      (τ ∈ w.timers ++ [⟨w.now + min ms longestSleep, t⟩] ↔ τ ∈ w.timers) := by
    intro w t ms running
    have other : τ ≠ ⟨w.now + min ms longestSleep, t⟩ := fun same =>
      asleep (by rw [running, same])
    simp [other]
  cases hm with
  | doze free dozes => exact slept rfl
  | rest free => exact slept rfl
  | arm free => exact slept rfl
  | expire free => exact complete_timer (w := _) kept
  | answered free caller alive answers =>
    simp only [recordAll_keeps] at kept ⊢
    exact complete_timer kept
  | @failRequest w t r i id m s free refusal =>
    have same := complete_timer kept
    simpa using same
  | refuse free refusal => exact complete_timer (w := _) kept
  | @call w v t i method payload options accepted free invoked =>
    have timers : v.timers = w.timers := by
      rw [← invoke_timers w i method payload options, invoked]
    show τ ∈ v.timers ↔ τ ∈ w.timers
    rw [timers]
  | @callRefused w v t i method payload options e free invoked =>
    have timers : v.timers = w.timers := by
      rw [← invoke_timers w i method payload options, invoked]
    show τ ∈ v.timers ↔ τ ∈ w.timers
    rw [timers]
  | _ => simp

open World in
/-- A task that watches a call arms the timer of its deadline, or ends the call. -/
theorem Move.watching {a b : Option TaskId × World} (hm : Move a b) {t : TaskId} {j : Job}
    {i : CallerId} {id : MessageId} {timeout : Duration} (runs : a.1 = some t)
    (task : a.2.tasks.get? t = some ⟨j, false⟩) (watches : j.watch? = some (i, id, timeout)) :
    ∃ w : World, a = (some t, w.park t j) ∧ w.tasks.get? t = none ∧
      (j = .deadline i id timeout ∧
        b = (none, w.sleep t timeout.ceilMillis (.expire i id timeout)) ∨
      j = .expire i id timeout ∧ b = (none, w.complete i id (.lapsed timeout))) := by
  have job : ∀ {w : World} {t' : TaskId} {j' : Job}, a = (some t', w.park t' j') →
      t' = t ∧ j' = j := fun ha => running_task ha runs task
  have idle : ∀ {j' : Job}, j' = j → j'.watch? = none → False := by
    intro j' same never
    rw [← same, never] at watches
    cases watches
  cases hm with
  | remove seat unowned alive unheld => cases runs
  | pass free passes => exact (idle (job rfl).2 (Job.watch?_of_call passes.quiet.1)).elim
  | doze free dozes => exact (idle (job rfl).2 (Job.watch?_of_call dozes.quiet)).elim
  | reply free server replies finish =>
    exact (idle (job rfl).2 (Job.watch?_of_call replies.quiet.1)).elim
  | mute free server replies finish =>
    exact (idle (job rfl).2 (Job.watch?_of_call replies.quiet.1)).elim
  | @arm w t' i' id' timeout' free =>
    obtain ⟨rfl, rfl⟩ := job rfl
    cases watches
    exact ⟨w, rfl, free, .inl ⟨rfl, rfl⟩⟩
  | @expire w t' i' id' timeout' free =>
    obtain ⟨rfl, rfl⟩ := job rfl
    cases watches
    exact ⟨w, rfl, free, .inr ⟨rfl, rfl⟩⟩
  | _ => exact (idle (job rfl).2 rfl).elim

open World in
/-- Only the time moves the clock, and only to the next timer, which is taken off then. -/
theorem Outset.time {w : World} {a : Act} {b : Option TaskId × World} (ho : Outset w a b) :
    (∃ due, a = .fire due ∧ w.nextDue = some due ∧ b = (none, w.fire due)) ∨
      (∀ due, a ≠ .fire due) ∧ b.2.now = w.now ∧ b.2.timers = w.timers := by
  cases ho with
  | fire due next => exact .inl ⟨due, rfl, next, rfl⟩
  | invoke i method payload options owned =>
    exact .inr ⟨by simp, invoke_now .., invoke_timers ..⟩
  | hold e owned => exact .inr ⟨by simp, by simp [World.hold], by simp [World.hold]⟩
  | drop e side owned => exact .inr ⟨by simp, by simp, by simp⟩
  | _ => exact .inr ⟨by simp, rfl, rfl⟩

open World in
/-- No task is cancelled at the outset of an act, and one that is does not take a turn. -/
theorem Outset.cancelled {w : World} {a : Act} {b : Option TaskId × World} (ho : Outset w a b)
    {k : TaskId} {x : Task} (task : b.2.tasks.get? k = some x) (cancelled : x.cancelled = true) :
    w.tasks.get? k = some x ∧ a ≠ .turn k := by
  have old : (w.tasks.get? k = some x ∨ x.cancelled = false) → w.tasks.get? k = some x := by
    intro before
    refine before.resolve_right fun alive => ?_
    rw [alive] at cancelled
    cases cancelled
  have spawned : ∀ j : Job, b.2.tasks = (w.tasks.insert ⟨j, false⟩).2 →
      w.tasks.get? k = some x := by
    intro j tasks
    rw [tasks, Table.get?_insert] at task
    refine old ?_
    split at task
    · cases task
      exact .inr rfl
    · exact .inl task
  cases ho with
  | take t j ready task' =>
    have other : k ≠ t := by
      rintro rfl
      simp only [park_keeps, Table.get?_set, if_true] at task
      cases task
      cases cancelled
    exact ⟨by simpa [other] using task, by simpa using other.symm⟩
  | discard t j ready task' =>
    have other : k ≠ t := by
      rintro rfl
      simp at task
    exact ⟨by simpa [other] using task, by simpa using other.symm⟩
  | stale t ready task' =>
    refine ⟨task, fun same => ?_⟩
    cases same
    rw [task'] at task
    cases task
  | enter o allowed => exact ⟨old (Table.task_of_set (by simpa using task)), by simp⟩
  | spawn o allowed => exact ⟨spawned _ rfl, by simp⟩
  | inbound l m => exact ⟨spawned _ rfl, by simp⟩
  | invoke i method payload options owned => exact ⟨old (task_of_invoke task), by simp⟩
  | fire due next => exact ⟨by simpa [World.fire] using task, by simp⟩
  | hold e owned => exact ⟨by simpa [World.hold] using task, by simp⟩
  | drop e side owned => exact ⟨by simpa using task, by simp⟩
  | _ => exact ⟨task, by simp⟩

namespace World

theorem nextDue_le {w : World} {due : Nat} (next : w.nextDue = some due) {τ : Timer}
    (armed : τ ∈ w.timers) : due ≤ τ.due :=
  (List.min?_eq_some_iff.mp next).2 τ.due (List.mem_map_of_mem armed)

theorem mem_wakeAll {w : World} {ts : List TaskId} {k : TaskId} (h : k ∈ ts) :
    k ∈ (w.wakeAll ts).ready := by
  induction ts generalizing w with
  | nil => cases h
  | cons t ts ih =>
    rcases List.mem_cons.mp h with rfl | h
    · exact (joins_wakeAll (S := fun _ => True) (w.wake k) fun _ _ => trivial).keeps (mem_wake w k)
    · exact ih h

theorem mem_fire {w : World} {due : Nat} {k : TaskId} :
    k ∈ (w.fire due).ready ↔ k ∈ w.ready ∨ ⟨due, k⟩ ∈ w.timers := by
  have joins : Joins (fun k => ⟨due, k⟩ ∈ w.timers) w.ready (w.fire due).ready := by
    refine joins_wakeAll { w with now := due, timers := w.timers.filter (·.due != due) }
      fun t ht => ?_
    obtain ⟨⟨τ, t'⟩, hτ, rfl⟩ := List.mem_map.mp ht
    obtain ⟨armed, now⟩ := List.mem_filter.mp hτ
    have now : τ = due := by simpa using now
    exact now ▸ armed
  refine ⟨joins.mem, fun h => h.elim joins.keeps fun armed => mem_wakeAll ?_⟩
  exact List.mem_map_of_mem (List.mem_filter.mpr ⟨armed, by simp⟩)

end World

/-! ## The stages of a deadline -/

/-- The moment at which the timer of a call runs out: at the deadline, if a timer runs that long. -/
def Acceptance.due (A : Acceptance) : Nat := A.time + min A.timeout.ceilMillis World.longestSleep

def Turn (a : Option TaskId × World) (t : TaskId) : Prop :=
  t ∈ a.2.ready ∧ a.1 ≠ some t ∨ t ∉ a.2.ready ∧ a.1 = some t

/-- Where the task stands that ends a call at its deadline: it is about to arm the timer at the
moment at which the call is accepted, or sleeps, or is about to end the call when the timer has run
out. -/
inductive Stage (a : Option TaskId × World) (A : Acceptance) (t : TaskId) : Prop
  | fresh (task : a.2.tasks.get? t = some ⟨.deadline A.caller A.id A.timeout, false⟩)
      (turn : Turn a t) (now : a.2.now = A.time) (timers : ∀ τ ∈ a.2.timers, τ.task ≠ t)
  | armed (task : a.2.tasks.get? t = some ⟨.expire A.caller A.id A.timeout, false⟩)
      (asleep : t ∉ a.2.ready ∧ a.1 ≠ some t)
      (timers : ∀ due, ⟨due, t⟩ ∈ a.2.timers ↔ due = A.due) (ahead : a.2.now < A.due)
  | due (task : a.2.tasks.get? t = some ⟨.expire A.caller A.id A.timeout, false⟩)
      (turn : Turn a t) (now : a.2.now = A.due)

namespace Stage

variable {a b : Option TaskId × World} {w : World} {A : Acceptance} {t : TaskId}

theorem task (h : Stage a A t) : ∃ j, a.2.tasks.get? t = some ⟨j, false⟩ ∧
    (j = .deadline A.caller A.id A.timeout ∨ j = .expire A.caller A.id A.timeout) := by
  cases h with
  | fresh task => exact ⟨_, task, .inl rfl⟩
  | armed task => exact ⟨_, task, .inr rfl⟩
  | due task => exact ⟨_, task, .inr rfl⟩

/-- A deadline whose task, queue and timers stay as they are stays at its stage. -/
theorem carry (h : Stage a A t) (task : b.2.tasks.get? t = a.2.tasks.get? t)
    (ready : t ∈ b.2.ready ↔ t ∈ a.2.ready) (running : b.1 = some t ↔ a.1 = some t)
    (now : b.2.now = a.2.now) (timers : ∀ due, ⟨due, t⟩ ∈ b.2.timers ↔ ⟨due, t⟩ ∈ a.2.timers) :
    Stage b A t := by
  have turn : Turn b t ↔ Turn a t := by simp only [Turn, ne_eq, ready, running]
  cases h with
  | fresh task' turn' now' timers' =>
    refine .fresh (task.trans task') (turn.mpr turn') (now.trans now') fun τ hτ same => ?_
    obtain ⟨due, t'⟩ := τ
    cases same
    exact timers' _ ((timers due).mp hτ) rfl
  | armed task' asleep timers' ahead =>
    refine .armed (task.trans task') ⟨mt ready.mp asleep.1, mt running.mp asleep.2⟩
      (fun due => (timers due).trans (timers' due)) (now ▸ ahead)
  | due task' turn' now' => exact .due (task.trans task') (turn.mpr turn') (now.trans now')

/-- The turn of a task that was in the queue has come. -/
theorem take {j : Job} (h : Stage (none, w) A t) (nodup : w.ready.Nodup)
    (task : w.tasks.get? t = some ⟨j, false⟩) (ready : t ∈ w.ready) :
    Stage (some t, (w.without t).park t j) A t := by
  have same : ((w.without t).park t j).tasks.get? t = w.tasks.get? t := by simp [task]
  have turn : Turn (some t, (w.without t).park t j) t := .inr ⟨nodup.not_mem_erase, rfl⟩
  cases h with
  | fresh task' turn' now timers => exact .fresh (same.trans task') turn now timers
  | armed task' asleep => exact absurd ready asleep.1
  | due task' turn' now => exact .due (same.trans task') turn now

/-- Nobody is in the queue when the time moves on, so the task has armed its timer, which has not
run out or is the next. -/
theorem fire {due : Nat} (h : Stage (none, w) A t) (quiescent : w.ready = [])
    (next : w.nextDue = some due) : Stage (none, w.fire due) A t := by
  have idle : ¬Turn (none, w) t := by simp [Turn, quiescent]
  cases h with
  | fresh task turn => exact absurd turn idle
  | due task turn => exact absurd turn idle
  | armed task asleep timers ahead =>
    have task' : (w.fire due).tasks.get? t = some ⟨.expire A.caller A.id A.timeout, false⟩ := by
      simpa [World.fire] using task
    have now : (w.fire due).now = due := by simp [World.fire]
    have le : due ≤ A.due := World.nextDue_le next ((timers A.due).mpr rfl)
    rcases Nat.lt_or_eq_of_le le with lt | same
    · refine .armed task' ⟨fun ready => ?_, by simp⟩ (fun due' => ?_)
        (Nat.lt_of_le_of_lt (Nat.le_of_eq now) lt)
      · rcases World.mem_fire.mp ready with ready | armed
        · exact asleep.1 ready
        · exact absurd ((timers due).mp armed) (Nat.ne_of_lt lt)
      · simp only [World.fire, World.wakeAll_keeps, List.mem_filter, timers, bne_iff_ne, ne_eq]
        omega
    · refine .due task' (.inl ⟨World.mem_fire.mpr (.inr ?_), by simp⟩) (now.trans same)
      exact (timers due).mpr same

/-- The task arms its timer. -/
theorem arm (h : Stage (some t, w.park t (.deadline A.caller A.id A.timeout)) A t)
    (long : 0 < A.timeout.floorMillis) :
    Stage (none, w.sleep t A.timeout.ceilMillis (.expire A.caller A.id A.timeout)) A t := by
  have positive : 0 < min A.timeout.ceilMillis World.longestSleep := by
    have longest : 0 < World.longestSleep := by decide
    simp only [Duration.floorMillis, Duration.ceilMillis] at long ⊢
    omega
  cases h with
  | fresh task turn now timers =>
    have now : w.now = A.time := now
    have asleep : t ∉ w.ready := by simpa [Turn] using turn
    refine .armed (by simp) ⟨asleep, by simp⟩ (fun due => ?_) ?_
    · have before : ⟨due, t⟩ ∉ w.timers := fun armed => timers _ armed rfl
      simp [World.sleep, before, now, Acceptance.due]
    · show w.now < A.due
      rw [now, Acceptance.due]
      omega
  | armed task => simp at task
  | due task => simp at task

end Stage

/-! ## Virtual time -/

/-- Time moves on only when no task is ready. -/
def Virtual (w : World) : Act → Prop
  | .fire _ => w.ready = []
  | _ => True

instance (w : World) (a : Act) : Decidable (Virtual w a) :=
  match a with
  | .fire _ => inferInstanceAs (Decidable (w.ready = []))
  | .command _ => inferInstanceAs (Decidable True)
  | .turn _ => inferInstanceAs (Decidable True)
  | .clock _ => inferInstanceAs (Decidable True)
  | .inbound _ _ => inferInstanceAs (Decidable True)

def Job.awaits : Job → Bool
  | .await _ _ => true
  | _ => false

theorem Leads.awaits {w : World} {t : TaskId} {j j' : Job} (h : Leads w t j j')
    (awaits : j.awaits = true) : j'.awaits = true := by
  cases h with
  | request j i c id m use caller listening => cases j <;> simp_all [Job.use?, Job.awaits]
  | attempt j u p use seat => cases j <;> simp_all [Job.use?, Job.awaits]
  | reply s v m a j es draft payload server replies finish => cases replies <;> cases awaits
  | _ => cases awaits

theorem Move.key_lt {a b : Option TaskId × World} (hm : Move a b) (tidy : a.2.Tidy) {t : TaskId}
    (runs : a.1 = some t) : t < a.2.tasks.next := by
  have parked : ∀ {w : World} {t' : TaskId} {j : Job}, a = (some t', w.park t' j) →
      t < a.2.tasks.next := by
    intro w t' j ha
    subst ha
    cases runs
    exact World.Tidy.lt (w := w) tidy
  cases hm with
  | remove seat unowned alive unheld => cases runs
  | _ => exact parked rfl

namespace World

/-- Every deadline is at one of its stages, and the calls whose deadline has come were given all
their time. -/
structure Timed (a : Option TaskId × World) : Prop where
  waiters : ∀ c call k, a.2.calls.get? c = some call → call.waiter = some k →
    a.2.KeepsTo (·.awaits = true) k
  clears : a.2.Clears
  ahead : ∀ τ ∈ a.2.timers, a.2.now ≤ τ.due
  long : ∀ A ∈ acceptances a.2.events, 0 < A.timeout.floorMillis
  stages : ∀ i, ∀ p ∈ a.2.pendingOf i, ∀ A, (acceptances a.2.events)[p.call]? = some A →
    Stage a A p.deadline
  lapsed : ∀ k i id d, a.2.account k = some (i, id, some (.error (.deadlineExceeded d))) →
    ∃ A, (acceptances a.2.events)[k]? = some A ∧ A.timeout = d ∧ A.due ≤ a.2.now

namespace Timed

variable {w : World} {a b : Option TaskId × World}

theorem new (h : w.IsNew) : Timed (none, w) := by
  obtain ⟨wall, ids, rfl⟩ := h
  refine ⟨?_, ?_, ?_, ?_, ?_, ?_⟩ <;>
    simp [Clears, acceptances, pendingOf, account, Table.get?]

/-- The queue holds the deadline of a call after a move if it held it before, unless the call has
ended. -/
theorem ready_iff (h : Timed a) (turn : InTurn a) (hm : Move a b) (tidy : a.2.Tidy) {t : TaskId}
    {j : Job} (task : b.2.tasks.get? t = some ⟨j, false⟩)
    (before : a.2.tasks.get? t = some ⟨j, false⟩) (watches : j.watch?.isSome = true) :
    t ∈ b.2.ready ↔ t ∈ a.2.ready := by
  have joins : Joins (· ≠ t) a.2.ready b.2.ready := by
    refine hm.joins turn.bounded (fun k hk _ same => ?_) (fun i p _ ended same => ?_)
      (fun c call k place waits => ⟨fun same => ?_, (h.waiters c call k place waits).1⟩)
      fun k awaits same => ?_
    · rw [same] at hk
      exact absurd (tidy.tasks.lt before) (Nat.not_lt.mpr hk)
    · rw [same] at ended
      cases ended _ task
    · subst same
      have awaits := (h.waiters c call k place waits).2 _ before
      cases j <;> simp_all [Job.awaits, Job.watch?]
    · subst same
      obtain ⟨v, t, r, u, ws, ha, cell, hk, -⟩ := awaits
      have cell : a.2.cell? u.engine = some (.attempting ws) := by
        rw [ha]
        exact (cell?_congr (park_seat? ..)).trans cell
      obtain ⟨-, -, x, u', task', job, -⟩ := (turn.orderly _).waiting ws k cell hk
      rw [before] at task'
      cases task'
      dsimp only at job
      rw [job] at watches
      cases watches
  refine ⟨fun ready => ?_, joins.keeps⟩
  exact (joins.mem ready).resolve_right fun other => other rfl

/-- The deadline of a call that is pending before and after a move goes on to its next stage, or
stays at the one it is at. -/
theorem stage_move (h : Timed a) (turn : InTurn a) (hm : Move a b) (tidy : a.2.Tidy)
    (docket : b.2.Docket) {i : CallerId} {p : PendingCall} {A : Acceptance}
    (stage : Stage a A p.deadline) (long : 0 < A.timeout.floorMillis)
    (pends : p ∈ b.2.pendingOf i) : Stage b A p.deadline := by
  obtain ⟨j, task, job⟩ := stage.task
  have watches : j.watch? = some (A.caller, A.id, A.timeout) := Job.watch?_eq_some.mpr job
  obtain ⟨A', -, alive⟩ := docket.watched i p pends
  obtain ⟨j', task', -⟩ := watch?_eq_some.mp alive
  by_cases runs : a.1 = some p.deadline
  · obtain ⟨w, rfl, free, ⟨rfl, rfl⟩ | ⟨rfl, rfl⟩⟩ := hm.watching runs task watches
    · exact stage.arm long
    · -- the call has ended now, so its deadline is gone
      have gone := gone_of_complete free A.caller A.id (.lapsed A.timeout)
      cases gone.symm.trans task'
  · have same : b.2.tasks.get? p.deadline = some ⟨j, false⟩ := by
      rcases hm.stays tidy task runs with same | ⟨cancelled, -⟩
      · exact same
      · rw [cancelled] at task'
        cases task'
    refine stage.carry (same.trans task.symm)
      (h.ready_iff turn hm tidy same task (by rw [watches]; rfl))
      ⟨hm.ran, fun before => absurd before runs⟩ hm.now fun due => ?_
    exact hm.timer_iff runs ⟨_, same, rfl⟩

/-- The deadline of a call that has just been accepted. -/
theorem stage_new (wakeful : a.2.Wakeful) {i : CallerId} {id : MessageId} {timeout : Duration}
    (now : b.2.now = a.2.now)
    (task : b.2.tasks.get? a.2.tasks.next = some ⟨.deadline i id timeout, false⟩)
    (ready : a.2.tasks.next ∈ b.2.ready) (runs : b.1 ≠ some a.2.tasks.next)
    (timers : ∀ τ ∈ b.2.timers, τ.task = a.2.tasks.next → τ ∈ a.2.timers) :
    Stage b ⟨a.2.now, i, id, timeout⟩ a.2.tasks.next := by
  refine .fresh task (.inl ⟨ready, runs⟩) now fun τ armed same => ?_
  have lt := (wakeful.timed τ (timers τ armed same)).1
  rw [same] at lt
  exact Nat.lt_irrefl _ lt

/-- Whatever becomes of the calls, what was said of them stays true if the deadlines of those that
are pending are at their stages. -/
theorem fare (h : Timed a) (docket : a.2.Docket) (fares : Fares a b)
    (grows : a.2.Grows b.2) (now : a.2.now ≤ b.2.now)
    (waiters : ∀ c call k, b.2.calls.get? c = some call → call.waiter = some k →
      b.2.KeepsTo (·.awaits = true) k)
    (clears : b.2.Clears) (ahead : ∀ τ ∈ b.2.timers, b.2.now ≤ τ.due)
    (kept : ∀ i p, ∀ A : Acceptance, p ∈ a.2.pendingOf i → p ∈ b.2.pendingOf i →
      0 < A.timeout.floorMillis → Stage a A p.deadline → Stage b A p.deadline)
    (starts : ∀ i, ∀ p : PendingCall, ∀ timeout, p.deadline = a.2.tasks.next →
      b.2.tasks.get? p.deadline = some ⟨.deadline i p.id timeout, false⟩ →
      p.deadline ∈ b.2.ready → Stage b ⟨a.2.now, i, p.id, timeout⟩ p.deadline) : Timed b := by
  have later : ∀ {k : Nat} {A : Acceptance}, (acceptances a.2.events)[k]? = some A →
      (acceptances b.2.events)[k]? = some A := acceptances_get? grows.events
  refine ⟨waiters, clears, ahead, fun A hA => ?_, fun i p pends A hA => ?_,
    fun k i id d place => ?_⟩
  · rcases fares.accepts with same | ⟨A', long, appended⟩
    · exact h.long A (same ▸ hA)
    · rw [appended] at hA
      rcases List.mem_append.mp hA with old | new
      · exact h.long A old
      · rw [List.mem_singleton.mp new]
        exact long
  · rcases fares.entry pends with old | ⟨timeout, call, deadline, -, appended, task, ready⟩
    · obtain ⟨A', hA', -⟩ := docket.watched i p old
      cases (later hA').symm.trans hA
      exact kept i p A old pends (h.long A (List.mem_of_getElem? hA')) (h.stages i p old A hA')
    · have latest : (acceptances b.2.events)[p.call]? = some ⟨a.2.now, i, p.id, timeout⟩ := by
        rw [appended, call, ← docket.numbered]
        simp
      cases latest.symm.trans hA
      exact starts i p timeout deadline task ready
  · rcases fares.outcome docket place with old | ⟨p, pends, cause, rfl, rfl, outcome, lapses⟩
    · obtain ⟨A, hA, timeout, due⟩ := h.lapsed k i id d old
      exact ⟨A, later hA, timeout, Nat.le_trans due now⟩
    · -- what ends a call with its deadline is the task whose timer has run out
      cases cause with
      | answered m =>
        simp only [Cause.outcome, Message.outcome] at outcome
        split at outcome
        · split at outcome <;> cases outcome
        · cases outcome
      | refused s => cases outcome
      | lapsed timeout =>
        cases outcome
        obtain ⟨t, runs, task⟩ := lapses d rfl
        have watch : a.2.watch? t = some (i, p.id, d) := watch?_of_task task
        have own : p.deadline = t := docket.deadline_eq watch (docket.pending?_eq pends)
        subst own
        obtain ⟨A, hA, -⟩ := docket.watched i p pends
        cases h.stages i p pends A hA with
        | fresh task' => cases task.symm.trans task'
        | armed task' asleep => exact absurd runs asleep.2
        | due task' turn due =>
          have same := task.symm.trans task'
          simp only [Option.some.injEq, Task.mk.injEq, Job.expire.injEq, and_true] at same
          exact ⟨A, later hA, same.2.2.symm, due ▸ now⟩

theorem move (h : Timed a) (turn : InTurn a) (docket : a.2.Docket) (hm : Move a b)
    (tidy : a.2.Tidy) : Timed b := by
  have tidy' := tidy.move hm
  have docket' := docket.move hm tidy
  refine h.fare docket (hm.fares tidy docket) hm.grows (Nat.le_of_eq hm.now.symm)
    (fun c call k place waits => ?_) (fun k x task cancelled => ?_) (fun τ armed => ?_)
    (fun i p A _ pends long stage => h.stage_move turn hm tidy docket' stage long pends)
    fun i p timeout deadline task ready => ?_
  · rcases hm.waiter place waits with ⟨call', old, waits'⟩ | ⟨held, task⟩
    · exact (h.waiters c call' k old waits').move hm tidy fun _ _ _ _ leads _ => leads.awaits
    · exact .of_task tidy' task rfl
  · have queue := hm.queue turn.wakeful turn.bounded
    exact (hm.cancelled tidy task cancelled).elim
      (fun old => queue.keeps (h.clears k x old cancelled)) id
  · rw [hm.now]
    exact (hm.timers armed).elim (h.ahead τ) And.left
  · rw [deadline] at task ready ⊢
    have new : a.1 ≠ some a.2.tasks.next := fun runs => Nat.lt_irrefl _ (hm.key_lt tidy runs)
    refine stage_new turn.wakeful hm.now task ready (fun goes => new (hm.ran goes))
      fun τ armed same => ?_
    exact (hm.timer_iff (by rwa [same]) ⟨_, same ▸ task, rfl⟩).mp armed

/-- At the outset of an act a deadline may take its turn, and time moves on if nobody else can. -/
theorem stage_outset {act : Act} (ho : Outset w act b) (quiescent : Virtual w act)
    (turn : InTurn (none, w)) (tidy : w.Tidy) {A : Acceptance} {t : TaskId}
    (stage : Stage (none, w) A t) : Stage b A t := by
  obtain ⟨j, task, job⟩ := stage.task
  have task : w.tasks.get? t = some ⟨j, false⟩ := task
  rcases ho.time with ⟨due, rfl, next, rfl⟩ | ⟨still, now, timers⟩
  · exact stage.fire quiescent next
  by_cases taken : act = .turn t
  · subst taken
    cases ho with
    | take t j' ready task' => exact stage.take turn.nodup task' ready
    | discard t j' ready task' => cases task'.symm.trans task
    | stale t ready task' => cases task'.symm.trans task
  · have same : b.2.tasks.get? t = some ⟨j, false⟩ := by
      rcases ho.stays tidy task with same | ⟨cancelled, -⟩
      · exact same
      · cases cancelled
    have lt : t < w.tasks.next := tidy.tasks.lt task
    obtain ⟨q, hq, joins⟩ := ho.joins (S := (· ≠ t)) turn.bounded
      (fun k hk _ same => absurd lt (Nat.not_lt.mpr (same ▸ hk)))
      fun τ _ fires => absurd fires (still τ.due)
    have rest : t ∈ q ↔ t ∈ w.ready := by
      rcases hq with ⟨-, rfl⟩ | ⟨t', rfl, rfl⟩
      · rfl
      · exact List.mem_erase_of_ne fun same => taken (by rw [same])
    have idle : b.1 ≠ some t := by
      intro runs
      rcases ho.runs runs same with ⟨turn, -⟩ | ⟨o, starts⟩
      · exact taken turn
      · rcases job with rfl | rfl <;> cases starts
    refine stage.carry (same.trans task.symm) ⟨fun ready => rest.mp ?_, fun ready => ?_⟩
      ⟨fun runs => absurd runs idle, nofun⟩ now fun due => by rw [timers]
    · exact (joins.mem ready).resolve_right fun other => other rfl
    · exact joins.keeps (rest.mpr ready)

theorem outset {act : Act} (h : Timed (none, w)) (turn : InTurn (none, w)) (docket : w.Docket)
    (ho : Outset w act b) (quiescent : Virtual w act) (tidy : w.Tidy) : Timed b := by
  have clock : w.now ≤ b.2.now ∧ (∀ τ ∈ b.2.timers, b.2.now ≤ τ.due ∧ τ ∈ w.timers) := by
    rcases ho.time with ⟨due, -, next, rfl⟩ | ⟨-, now, timers⟩
    · have later : w.now ≤ due := by
        obtain ⟨τ, armed, rfl⟩ := List.mem_map.mp (List.min?_mem next)
        exact h.ahead τ armed
      refine ⟨by simpa [fire] using later, fun τ armed => ?_⟩
      simp only [fire, wakeAll_keeps, List.mem_filter] at armed ⊢
      exact ⟨nextDue_le next armed.1, armed.1⟩
    · refine ⟨Nat.le_of_eq now.symm, fun τ armed => ?_⟩
      rw [timers] at armed
      exact ⟨now ▸ h.ahead τ armed, armed⟩
  refine h.fare docket (ho.fares tidy) (ho.grows tidy) clock.1 (fun c call k place waits => ?_)
    (fun k x task cancelled => ?_) (fun τ armed => (clock.2 τ armed).1)
    (fun i p A _ _ _ stage => stage_outset ho quiescent turn tidy stage)
    fun i p timeout deadline task ready => ?_
  · obtain ⟨call', old, waits'⟩ := ho.waiter place waits
    exact (h.waiters c call' k old waits').outset ho
  · obtain ⟨old, notTaken⟩ := ho.cancelled task cancelled
    have ready := h.clears k x old cancelled
    obtain ⟨q, hq, joins⟩ := ho.joins (S := fun _ => True) turn.bounded (fun _ _ _ => trivial)
      fun _ _ _ => trivial
    refine joins.keeps ?_
    rcases hq with ⟨-, rfl⟩ | ⟨t, rfl, rfl⟩
    · exact ready
    · exact (List.mem_erase_of_ne fun same => notTaken (by rw [same])).mpr ready
  · rw [deadline] at task ready ⊢
    have fresh : w.tasks.get? w.tasks.next = none := tidy.tasks.next
    have idle : b.1 ≠ some w.tasks.next := by
      intro runs
      rcases ho.runs runs task with ⟨-, old, -⟩ | ⟨o, starts⟩
      · cases fresh.symm.trans old
      · cases starts
    have now : b.2.now = w.now := by
      rcases ho.time with ⟨due, -, -, rfl⟩ | ⟨-, now, -⟩
      · have old : w.tasks.get? w.tasks.next = some ⟨.deadline i p.id timeout, false⟩ := by
          simpa [fire] using task
        cases fresh.symm.trans old
      · exact now
    exact stage_new turn.wakeful now task ready idle fun τ armed _ => (clock.2 τ armed).2

/-- **Deadlines keep their stages** through every run in virtual time. -/
theorem kept : Kept Virtual fun a => (InTurn a ∧ a.2.Docket) ∧ Timed a :=
  ((InTurn.kept.mono fun _ _ _ => trivial).add
    (R := fun a => a.2.Docket) (fun tidy ho _ _ _ h => h.fare tidy (ho.fares tidy))
    (fun tidy hm _ _ h => h.move hm tidy)).add
  (fun tidy ho quiescent before _ h => h.outset before.1 before.2 ho quiescent tidy)
  fun tidy hm before _ h => h.move before.1 before.2 hm tidy

end Timed

end World

/-! ## Deadlines are kept -/

namespace Acceptance

variable {A : Acceptance} {now : Nat}

/-- The first millisecond at which the whole timeout has passed since the call was accepted. -/
def deadline (A : Acceptance) : Nat := A.time + A.timeout.ceilMillis

end Acceptance

end Switchboard
