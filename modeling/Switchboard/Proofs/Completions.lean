import Switchboard.Proofs.Deliveries
import Switchboard.Proofs.Outcomes

/-! # Calls that end in any order

A response, a deadline and a request that could not be sent all end a call in the same way: they
take its entry out of the registry, disarm its timer and put an outcome in its place. `World.Ends`
says what that does to all that can be seen of the calls, and two endings of different calls can
change places (`Ends.swap`). Main statement: `completions_commute`.
-/

namespace Switchboard

open History

def Event.unexpected? : Event → Option (CallerId × Message)
  | .unexpected i m => some (i, m)
  | _ => none

namespace World

variable {w v : World} {i : CallerId} {id : MessageId} {p : PendingCall}

/-- The task of its deadline keeps the caller of a pending call from going away. -/
theorem Docket.seated (h : w.Docket) (forsaken : w.Forsaken) (pends : p ∈ w.pendingOf i) :
    ∃ c, w.callers.get? i = some c ∧ c.seat.gone = false := by
  obtain ⟨c, caller, -⟩ := Option.bind_eq_some_iff.mp (h.pending?_eq pends)
  refine ⟨c, caller, Bool.eq_false_iff.mpr fun gone => ?_⟩
  exact forsaken _ c.seat (by simp [seat?, caller]) gone (h.held pends)

/-- The second world is the first one once a pending call has come to an outcome. -/
structure Ends (w v : World) (i : CallerId) (p : PendingCall) (o : Except Failure Payload) :
    Prop where
  next : v.calls.next = w.calls.next
  places : ∀ k, v.account k = if k = p.call then
    (w.account k).map fun c => (c.1, c.2.1, some o) else w.account k
  pending : ∀ j, v.pendingOf j =
    if j = i then (w.pendingOf j).filter (·.id != p.id) else w.pendingOf j
  watches : ∀ k, v.watch? k = if k = p.deadline then none else w.watch? k
  timers : v.timers = w.timers.filter (·.task != p.deadline)
  history : acceptances v.events = acceptances w.events
  seats : ∀ e, v.seat? e = w.seat? e
  unexpected : v.seen Event.unexpected? = w.seen Event.unexpected?

/-- The timer of the call that ends is disarmed, and no other. -/
theorem complete_disarms (hp : (w.callers.get? i).bind (·.pending? id) = some p)
    (task : (w.tasks.get? p.deadline).isSome = true) (cause : Cause) :
    (w.complete i id cause).timers = w.timers.filter (·.task != p.deadline) := by
  rw [complete_of_some hp, resolve_timers]
  obtain ⟨x, task⟩ := Option.isSome_iff_exists.mp task
  simp [cancel, task]

/-- Whatever ends a pending call, and whatever is noted before that has nothing to do with calls. -/
theorem Docket.ends (h : w.Docket) (pends : p ∈ w.pendingOf i) (es : List Event)
    (quiet : ∀ e ∈ es, isEntry e = false ∧ e.unexpected? = none) (cause : Cause) :
    w.Ends ((w.recordAll es).complete i p.id cause) i p cause.outcome := by
  have hp : ((w.recordAll es).callers.get? i).bind (·.pending? p.id) = some p := by
    simpa using h.pending?_eq pends
  obtain ⟨A, -, watch⟩ := h.watched i p pends
  obtain ⟨j, task, -⟩ := watch?_eq_some.mp watch
  constructor
  case next => simp
  case places =>
    intro k
    rw [complete_account hp, account_congr (v := w.recordAll es) (w := w) (by simp)]
  case pending =>
    intro j
    rw [Ledger.pendingOf_complete hp]
    split
    · rename_i hj
      simp [hj]
    · simp
  case watches =>
    intro k
    rw [watch?_complete hp, watch?_congr (w := w) (by simp)]
  case timers =>
    rw [complete_disarms hp (by simp [task])]
    simp
  case history =>
    have noted := acceptances_congr (entries_append (fun e he => (quiet e he).1) w.now w.events)
    simpa [recordAll_events, acceptances] using noted
  case seats => intro e; simp
  case unexpected =>
    have silent : es.filterMap Event.unexpected? = [] :=
      List.filterMap_eq_nil_iff.mpr fun e he => (quiet e he).2
    rw [complete_seen, recordAll_seen, silent]
    simp [Event.unexpected?]

/-! ## Worlds that agree on their calls -/

/-- The two worlds agree on all that can be seen of their calls, on the timers, and on the engines
that are there. -/
structure SameCalls (w v : World) : Prop where
  next : v.calls.next = w.calls.next
  places : ∀ k, v.account k = w.account k
  pending : ∀ i, v.pendingOf i = w.pendingOf i
  watches : ∀ k, v.watch? k = w.watch? k
  timers : v.timers = w.timers
  history : acceptances v.events = acceptances w.events
  seats : ∀ e, v.seat? e = w.seat? e
  unexpected : v.seen Event.unexpected? = w.seen Event.unexpected?

variable {a b c d : World} {i' : CallerId} {p' : PendingCall} {o o' : Except Failure Payload}

theorem SameCalls.refl (w : World) : w.SameCalls w :=
  ⟨rfl, fun _ => rfl, fun _ => rfl, fun _ => rfl, rfl, rfl, fun _ => rfl, rfl⟩

theorem SameCalls.trans (h : a.SameCalls b) (h' : b.SameCalls c) : a.SameCalls c where
  next := h'.next.trans h.next
  places k := (h'.places k).trans (h.places k)
  pending i := (h'.pending i).trans (h.pending i)
  watches k := (h'.watches k).trans (h.watches k)
  timers := h'.timers.trans h.timers
  history := h'.history.trans h.history
  seats e := (h'.seats e).trans (h.seats e)
  unexpected := h'.unexpected.trans h.unexpected

theorem SameCalls.attends (h : w.SameCalls v) (e : EngineId) :
    v.attends (.engine e) = w.attends (.engine e) := by
  rw [World.attends, World.attends, h.seats]

theorem SameCalls.docket (h : w.SameCalls v) (docket : w.Docket) : v.Docket :=
  docket.congr h.next h.places h.pending h.watches h.history

namespace Ends

theorem docket (h : w.Ends v i p o) (docket : w.Docket) (pends : p ∈ w.pendingOf i) : v.Docket :=
  docket.ended pends h.next h.places h.pending h.watches h.history

theorem attends (h : w.Ends v i p o) (e : EngineId) :
    v.attends (.engine e) = w.attends (.engine e) := by
  rw [World.attends, World.attends, h.seats]

theorem stays (h : w.Ends v i p o) (pends : p' ∈ w.pendingOf i') (other : (i', p'.id) ≠ (i, p.id)) :
    p' ∈ v.pendingOf i' := by
  rw [h.pending]
  split
  · rename_i hi
    subst hi
    exact List.mem_filter.mpr ⟨pends, bne_iff_ne.mpr fun same => other (by rw [same])⟩
  · exact pends

/-- The same call comes to the same outcome in worlds that agree on their calls. -/
theorem congr (h : a.Ends b i p o) (h' : c.Ends d i p o) (same : a.SameCalls c) :
    b.SameCalls d where
  next := by rw [h.next, h'.next, same.next]
  places k := by rw [h.places, h'.places, same.places]
  pending j := by rw [h.pending, h'.pending, same.pending]
  watches k := by rw [h.watches, h'.watches, same.watches]
  timers := by rw [h.timers, h'.timers, same.timers]
  history := by rw [h.history, h'.history, same.history]
  seats e := by rw [h.seats, h'.seats, same.seats]
  unexpected := by rw [h.unexpected, h'.unexpected, same.unexpected]

/-- Two calls that end one after the other may as well end in the other order. -/
theorem swap (first : w.Ends a i p o) (second : a.Ends b i' p' o') (first' : w.Ends c i' p' o')
    (second' : c.Ends d i p o) (other : p.call ≠ p'.call) : b.SameCalls d where
  next := by rw [second.next, first.next, second'.next, first'.next]
  places k := by
    rw [second.places, first.places, second'.places, first'.places]
    by_cases hk : k = p.call
    · rw [if_pos hk, if_pos hk, if_neg (hk ▸ other), if_neg (hk ▸ other)]
    · rw [if_neg hk, if_neg hk]
  pending j := by
    rw [second.pending, first.pending, second'.pending, first'.pending]
    by_cases hj : j = i <;> by_cases hj' : j = i'
    · simp only [if_pos hj, if_pos hj']
      exact List.filter_comm ..
    · simp only [if_pos hj, if_neg hj']
    · simp only [if_neg hj, if_pos hj']
    · simp only [if_neg hj, if_neg hj']
  watches k := by
    rw [second.watches, first.watches, second'.watches, first'.watches]
    split <;> simp
  timers := by
    rw [second.timers, first.timers, second'.timers, first'.timers]
    exact List.filter_comm ..
  history := by rw [second.history, first.history, second'.history, first'.history]
  seats e := by rw [second.seats, first.seats, second'.seats, first'.seats]
  unexpected := by
    rw [second.unexpected, first.unexpected, second'.unexpected, first'.unexpected]

end Ends

end World

/-! ## Completions -/

inductive Completion
  /-- The caller's listener receives a message. -/
  | response (i : CallerId) (m : Message)
  /-- The deadline of the call fires. -/
  | deadline (i : CallerId) (id : MessageId) (timeout : Duration)
  /-- The listener for the answer could not be registered. -/
  | unheard (i : CallerId) (id : MessageId) (m : Message) (s : Status)
  /-- The request was not sent. -/
  | unsent (i : CallerId) (id : MessageId) (s : Status)

namespace Completion

/-- The call that the completion is for; for a message this is the call that it answers. -/
def target : Completion → Option (CallerId × MessageId)
  | response i m => m.answers?.map (i, ·)
  | deadline i id _ => some (i, id)
  | unheard i id _ _ => some (i, id)
  | unsent i id _ => some (i, id)

def cause : Completion → Cause
  | response _ m => .answered m
  | deadline _ _ timeout => .lapsed timeout
  | unheard _ _ _ s => .refused s
  | unsent _ _ s => .refused s

end Completion

namespace World

def process (w : World) (t : TaskId) : Completion → World
  | .response i m => w.deliver t (.engine (.caller i)) m
  | .deadline i id timeout => w.work t (.expire i id timeout)
  | .unheard i id m s => w.useListener t (.request i id m) (.error s)
  | .unsent i id s => w.afterSend t (.request i id) (.error s)

def processAll (w : World) (t : TaskId) (es : List Completion) : World :=
  es.foldl (fun w e => w.process t e) w

/-- Every completion is for a pending call of a caller that is there, and no two are for the same
call. -/
structure CanEnd (w : World) (es : List Completion) : Prop where
  docket : w.Docket
  each : ∀ e ∈ es, ∃ i, ∃ p ∈ w.pendingOf i, e.target = some (i, p.id) ∧
    w.attends (.engine (.caller i)) = true
  apart : (es.map Completion.target).Nodup

variable {w v : World} {i i' : CallerId} {p p' : PendingCall} {e e' : Completion}
  {es es' : List Completion}

/-- **A completion ends its call**, whichever it is. -/
theorem Docket.process (h : w.Docket) (pends : p ∈ w.pendingOf i) (t : TaskId)
    (target : e.target = some (i, p.id)) (alive : w.attends (.engine (.caller i)) = true) :
    w.Ends (w.process t e) i p e.cause.outcome := by
  have ends (cause : Cause) : w.Ends (w.complete i p.id cause) i p cause.outcome :=
    h.ends pends [] (by simp) cause
  cases e with
  | response j m =>
    obtain ⟨id, answers, same⟩ := Option.map_eq_some_iff.mp target
    cases same
    have found := h.pending?_eq pends
    obtain ⟨c, caller, entry⟩ := Option.bind_eq_some_iff.mp found
    have here : c.seat.gone = false := by simpa [attends_caller caller] using alive
    have heard : w.process t (.response i m) =
        (w.recordAll [.delivered (.engine (.caller i)) m]).complete i p.id (.answered m) := by
      simp [World.process, deliver, caller, here, receive, answers, entry]
    rw [heard]
    exact h.ends pends _ (by simp [isEntry, Event.unexpected?]) (.answered m)
  | deadline j id timeout => cases target; exact ends _
  | unheard j id m s => cases target; exact ends _
  | unsent j id s => cases target; exact ends _

/-- A call that is pending before another one ends can end after it. -/
theorem Docket.process_next (h : w.Docket) (pends : p ∈ w.pendingOf i)
    (pends' : p' ∈ w.pendingOf i') (t : TaskId) (target : e.target = some (i, p.id))
    (target' : e'.target = some (i', p'.id))
    (alive : w.attends (.engine (.caller i)) = true)
    (alive' : w.attends (.engine (.caller i')) = true) (other : (i', p'.id) ≠ (i, p.id)) :
    (w.process t e).Ends ((w.process t e).process t e') i' p' e'.cause.outcome := by
  have ends := h.process pends t target alive
  exact (ends.docket h pends).process (ends.stays pends' other) t target'
    ((ends.attends _).trans alive')

namespace CanEnd

theorem perm (h : w.CanEnd es) (perm : es.Perm es') : w.CanEnd es' where
  docket := h.docket
  each e he := h.each e (perm.mem_iff.mpr he)
  apart := (perm.map _).nodup_iff.mp h.apart

theorem congr (h : w.CanEnd es) (same : w.SameCalls v) : v.CanEnd es where
  docket := same.docket h.docket
  each e he := by
    obtain ⟨i, p, pends, target, alive⟩ := h.each e he
    exact ⟨i, p, same.pending i ▸ pends, target, (same.attends _).trans alive⟩
  apart := h.apart

/-- The first completion ends its call, and the others are for calls that are still pending. -/
theorem next (h : w.CanEnd (e :: es)) (t : TaskId) : ∃ i, ∃ p ∈ w.pendingOf i,
    e.target = some (i, p.id) ∧ w.Ends (w.process t e) i p e.cause.outcome ∧
      (w.process t e).CanEnd es := by
  obtain ⟨i, p, pends, target, alive⟩ := h.each e List.mem_cons_self
  have ends := h.docket.process pends t target alive
  obtain ⟨fresh, apart⟩ := List.nodup_cons.mp h.apart
  refine ⟨i, p, pends, target, ends, ends.docket h.docket pends, fun e' he' => ?_, apart⟩
  obtain ⟨i', p', pends', target', alive'⟩ := h.each e' (List.mem_cons_of_mem _ he')
  refine ⟨i', p', ends.stays pends' fun same => fresh ?_, target', (ends.attends _).trans alive'⟩
  rw [target, ← same, ← target']
  exact List.mem_map_of_mem he'

/-- Worlds that agree on their calls do so after the same completions. -/
theorem processAll_congr (h : w.CanEnd es) (same : w.SameCalls v) (t : TaskId) :
    (w.processAll t es).SameCalls (v.processAll t es) := by
  induction es generalizing w v with
  | nil => exact same
  | cons e es ih =>
    obtain ⟨i, p, pends, target, ends, rest⟩ := h.next t
    obtain ⟨j, q, pends', target', ends', -⟩ := (h.congr same).next t
    rw [same.pending] at pends'
    -- both worlds end the call that the completion is for
    have own : (i, p.id) = (j, q.id) := Option.some.inj (target.symm.trans target')
    obtain ⟨rfl, hid⟩ := Prod.mk.inj own
    cases h.docket.eq_of_id pends pends' hid
    exact ih rest (ends.congr ends' same)

/-- **The order of completions does not matter.** -/
theorem processAll_perm (perm : es.Perm es') (h : w.CanEnd es) (t : TaskId) :
    (w.processAll t es).SameCalls (w.processAll t es') := by
  induction perm generalizing w with
  | nil => exact .refl w
  | cons e perm ih =>
    obtain ⟨i, p, -, -, -, rest⟩ := h.next t
    exact ih rest
  | swap e e' es =>
    obtain ⟨i', p', pends', target', alive'⟩ := h.each e' List.mem_cons_self
    obtain ⟨i, p, pends, target, alive⟩ := h.each e (by simp)
    have other : (i, p.id) ≠ (i', p'.id) := fun same =>
      (List.nodup_cons.mp h.apart).1 (by simp [target', target, same])
    have calls : p'.call ≠ p.call := fun same => by
      obtain ⟨hi, hp⟩ := h.docket.eq_of_call pends' pends same
      exact other (by rw [hi, hp])
    have swapped := (h.docket.process pends' t target' alive').swap
      (h.docket.process_next pends' pends t target' target alive' alive other)
      (h.docket.process pends t target alive)
      (h.docket.process_next pends pends' t target target' alive alive' other.symm) calls
    obtain ⟨-, -, -, -, -, rest⟩ := h.next t
    obtain ⟨-, -, -, -, -, rest⟩ := rest.next t
    exact rest.processAll_congr swapped t
  | trans perm perm' ih ih' => exact (ih h).trans (ih' (h.perm perm))

theorem account_of_ended (h : w.CanEnd es) (t : TaskId) {k : CallId} {id : MessageId}
    {o : Except Failure Payload} (place : w.account k = some (i, id, some o)) :
    (w.processAll t es).account k = some (i, id, some o) := by
  induction es generalizing w with
  | nil => exact place
  | cons e es ih =>
    obtain ⟨j, p, pends, -, ends, rest⟩ := h.next t
    refine ih rest ?_
    rw [ends.places, if_neg, place]
    rintro rfl
    rw [h.docket.places j p pends] at place
    cases place

theorem account_of_target (h : w.CanEnd es) (t : TaskId) (he : e ∈ es)
    (pends : p ∈ w.pendingOf i) (target : e.target = some (i, p.id)) :
    (w.processAll t es).account p.call = some (i, p.id, some e.cause.outcome) := by
  induction es generalizing w with
  | nil => cases he
  | cons e' es ih =>
    obtain ⟨j, q, pends', target', ends, rest⟩ := h.next t
    rcases List.mem_cons.mp he with rfl | later
    · obtain ⟨rfl, hid⟩ := Prod.mk.inj (Option.some.inj (target.symm.trans target'))
      cases h.docket.eq_of_id pends pends' hid
      refine rest.account_of_ended t ?_
      rw [ends.places, if_pos rfl, h.docket.places i p pends]
      rfl
    · refine ih rest later (ends.stays pends fun same => ?_)
      refine (List.nodup_cons.mp h.apart).1 ?_
      rw [target', ← same, ← target]
      exact List.mem_map_of_mem later

/-- Exactly the calls that no completion is for are still pending. -/
theorem mem_pendingOf (h : w.CanEnd es) (t : TaskId) :
    p ∈ (w.processAll t es).pendingOf i ↔
      p ∈ w.pendingOf i ∧ some (i, p.id) ∉ es.map Completion.target := by
  induction es generalizing w with
  | nil => simp [processAll]
  | cons e es ih =>
    obtain ⟨j, q, -, target, ends, rest⟩ := h.next t
    refine (ih rest).trans ?_
    rw [ends.pending, List.map_cons, List.mem_cons, target]
    by_cases hi : i = j
    · subst hi
      simp only [if_true, List.mem_filter, bne_iff_ne, Option.some.injEq, Prod.mk.injEq, true_and]
      tauto
    · simp [hi]

theorem silent (h : w.CanEnd es) (t : TaskId) :
    (w.processAll t es).seen Event.unexpected? = w.seen Event.unexpected? := by
  induction es generalizing w with
  | nil => rfl
  | cons e es ih =>
    obtain ⟨i, p, -, -, ends, rest⟩ := h.next t
    exact (ih rest).trans ends.unexpected

end CanEnd

end World

open World

/-- **Calls may end in any order.** Whatever a run has come to, let there be responses, deadlines
and requests that are not sent, each for a pending call, and no two for the same call. In whichever
order they are processed, the same calls are pending afterwards, namely those that none of them is
for, the same timers run and the same tasks watch the same calls, every call has the same outcome,
and no message is reported as unexpected. Each of the calls that have ended has the outcome that its
own completion brings. -/
theorem completions_commute {w : World} {as : List Act} (new : w.IsNew) (run : w.CanRun as)
    {es es' : List Completion} (perm : es.Perm es')
    (pending : ∀ e ∈ es, ∃ i, ∃ p ∈ (w.after as).pendingOf i, e.target = some (i, p.id))
    (apart : (es.map Completion.target).Nodup) (t : TaskId) :
    let v := w.after as
    (∀ i, (v.processAll t es').pendingOf i = (v.processAll t es).pendingOf i) ∧
    (∀ i p, p ∈ (v.processAll t es).pendingOf i ↔
      p ∈ v.pendingOf i ∧ some (i, p.id) ∉ es.map Completion.target) ∧
    (v.processAll t es').timers = (v.processAll t es).timers ∧
    (∀ k, (v.processAll t es').watch? k = (v.processAll t es).watch? k) ∧
    (∀ k, (v.processAll t es').account k = (v.processAll t es).account k) ∧
    (∀ e ∈ es, ∀ i, ∀ p ∈ v.pendingOf i, e.target = some (i, p.id) →
      (v.processAll t es).account p.call = some (i, p.id, some e.cause.outcome)) ∧
    (v.processAll t es).seen Event.unexpected? = v.seen Event.unexpected? ∧
    (v.processAll t es').seen Event.unexpected? = v.seen Event.unexpected? := by
  intro v
  have known : Along (fun _ _ => True) w as := run.mono fun _ _ _ => trivial
  obtain ⟨-, docket⟩ := Docket.kept.run run known (.new new) (.new new)
  obtain ⟨-, -, forsaken⟩ := Forsaken.kept.run run known (.new new) ⟨.new new, .new new⟩
  have canEnd : v.CanEnd es := by
    refine ⟨docket, fun e he => ?_, apart⟩
    obtain ⟨i, p, pends, target⟩ := pending e he
    obtain ⟨c, caller, here⟩ := docket.seated forsaken pends
    exact ⟨i, p, pends, target, (attends_caller caller).trans (by rw [here]; rfl)⟩
  have same := canEnd.processAll_perm perm t
  exact ⟨same.pending, fun i p => canEnd.mem_pendingOf t, same.timers, same.watches, same.places,
    fun e he i p pends target => canEnd.account_of_target t he pends target,
    canEnd.silent t, same.unexpected.trans (canEnd.silent t)⟩

/-- Two callers on one link have four calls pending. One is answered, one runs out of time, one is
not sent and one has no listener for its answer, in this order or in the reverse. -/
theorem four_calls_end_in_reverse :
    let ids : MessageId.Source := { issue := fun n => .stamped 1 (BitVec.ofNat 74 n) }
    let method : Address := ⟨"server", 2, 1, 1⟩
    let answer : Message :=
      ⟨{ id := some (ids.issue 7), kind := .response, source := some method,
         sink := some ⟨"client", 1, 1, 0⟩, priority := .interactive,
         requestId := some (ids.issue 0) }, some (.ofText "on")⟩
    let w : World := { wall := 0, ids := ids }
    let as : List Act := [.command (.addLink ⟨"client", 1, 1, 0⟩), .command (.addCaller 0 true),
      .command (.addCaller 0 false), .command (.invoke 0 method none .standard),
      .command (.invoke 0 method none .standard), .command (.invoke 1 method none .standard),
      .command (.invoke 1 method none .standard), .turn 0, .turn 2, .turn 4]
    let es : List Completion := [.response 0 answer, .deadline 0 (ids.issue 1) (.ofMillis 10000),
      .unsent 1 (ids.issue 2) Link.closedStatus, .unheard 1 (ids.issue 3) answer Link.closedStatus]
    let v := w.after as
    w.IsNew ∧ w.CanRun as ∧
      (∀ e ∈ es, ∃ i, ∃ p ∈ v.pendingOf i, e.target = some (i, p.id)) ∧
      (es.map Completion.target).Nodup ∧
      (v.processAll 8 es.reverse).timers = (v.processAll 8 es).timers ∧
      (v.processAll 8 es.reverse).account 0 = some (0, ids.issue 0, some (.ok (.ofText "on"))) := by
  intro ids method answer w as es v
  have new : w.IsNew := ⟨0, ids, rfl⟩
  have run : w.CanRun as := by decide +kernel
  have pending : ∀ e ∈ es, ∃ i, ∃ p ∈ v.pendingOf i, e.target = some (i, p.id) := by
    have each : ∀ e ∈ es, e.target.any fun c => (v.pendingOf c.1).any (·.id == c.2) := by
      decide +kernel
    intro e he
    obtain ⟨⟨i, id⟩, target, found⟩ := (Option.any_eq_true ..).mp (each e he)
    obtain ⟨p, pends, same⟩ := List.any_eq_true.mp found
    exact ⟨i, p, pends, by rw [target, eq_of_beq same]⟩
  have apart : (es.map Completion.target).Nodup := by decide +kernel
  obtain ⟨-, -, timers, -, places, told, -⟩ :=
    completions_commute new run (List.reverse_perm es).symm pending apart 8
  refine ⟨new, run, pending, apart, timers, (places 0).trans ?_⟩
  have first : (⟨ids.issue 0, 0, 0⟩ : PendingCall) ∈ v.pendingOf 0 := by decide +kernel
  have answers : (Completion.response 0 answer).target = some (0, ids.issue 0) := by
    decide +kernel
  have ended := told (.response 0 answer) List.mem_cons_self 0 _ first answers
  rwa [show (Completion.response 0 answer).cause.outcome = .ok (.ofText "on") from rfl] at ended

end Switchboard
