import Switchboard.Proofs.Deeds
import Switchboard.Proofs.Holding
import Switchboard.Proofs.Pending

/-! # What a call comes to

Whoever owns a caller may let it go before its calls have ended. The tasks of the deadlines hold the
caller then, so it is there until the last call has ended, and no outcome is lost: the failure that
stands for an outcome that never came is given to no call. Main statement:
`calls_outlive_their_owners`.
-/

namespace Switchboard

open World

/-- What a call can come to: a payload, the refusal of a link, its deadline, or a status from the
peer. -/
def IsOutcome : Except Failure Payload → Prop
  | .ok _ => True
  | .error (.sendFailed _) => True
  | .error (.deadlineExceeded _) => True
  | .error (.remote _) => True
  | .error _ => False

theorem Cause.isOutcome (cause : Cause) : IsOutcome cause.outcome := by
  cases cause with
  | answered m =>
    simp only [Cause.outcome, Message.outcome]
    split
    · split <;> trivial
    · trivial
  | lapsed timeout => trivial
  | refused s => trivial

namespace World

variable {w : World} {a b : Option TaskId × World}

def Honours (w : World) : Prop := ∀ k i id o, w.account k = some (i, id, some o) → IsOutcome o

theorem Honours.fare (h : a.2.Honours) (docket : a.2.Docket) (fares : Fares a b) :
    b.2.Honours := by
  intro k i id o place
  rcases fares.outcome docket place with old | ⟨p, -, cause, -, -, rfl, -⟩
  · exact h k i id o old
  · exact cause.isOutcome

theorem Honours.new (h : w.IsNew) : w.Honours := by
  obtain ⟨wall, ids, rfl⟩ := h
  intro k i id o place
  simp [account, Table.get?] at place

/-- **No outcome is given up**, in any run. -/
theorem Honours.kept : Kept (fun _ _ => True) fun a => a.2.Docket ∧ a.2.Honours :=
  Docket.kept.add (fun tidy ho _ docket _ h => h.fare docket (ho.fares tidy))
    fun tidy hm docket _ h => h.fare docket (hm.fares tidy docket)

theorem Docket.held (h : w.Docket) {i : CallerId} {p : PendingCall} (pends : p ∈ w.pendingOf i) :
    w.Held (.caller i) := by
  obtain ⟨A, -, watch⟩ := h.watched i p pends
  obtain ⟨j, task, job⟩ := watch?_eq_some.mp watch
  refine ⟨j, ⟨_, _, task, rfl⟩, ?_⟩
  rcases job with rfl | rfl <;> rfl

/-- In the act a task asks for the outcome of a call: it begins to wait for it, in the foreground or
not, or looks again. -/
inductive Redeems (w : World) : Act → TaskId → CallId → Prop
  | enter (k : CallId) : Redeems w (.command (.enter (.await k))) w.tasks.next k
  | begin (t : TaskId) (k : CallId) (task : w.tasks.get? t = some ⟨.start (.await k), false⟩) :
    Redeems w (.turn t) t k
  | again (t : TaskId) (k : CallId) (held : Option CallerId)
      (task : w.tasks.get? t = some ⟨.await k held, false⟩) : Redeems w (.turn t) t k

/-- Who asks for an outcome is told what stands in its place. -/
theorem await_events (w : World) (t : TaskId) (k : CallId) (held : Option CallerId) :
    ∃ es : History, (w.await t k held).events = es ++ w.events ∧
      ∀ e ∈ es, ∃ call o, w.calls.get? k = some call ∧ call.outcome = some o ∧
        e.2 = .resolved t o := by
  unfold await
  split
  · exact ⟨[], rfl, by simp⟩
  · rename_i call place
    split
    · rename_i o outcome
      exact ⟨[(w.now, .resolved t o)], rfl, fun e he => ⟨call, o, place, outcome, by simp_all⟩⟩
    · exact ⟨[], rfl, by simp⟩

theorem Redeems.told {act : Act} {t : TaskId} {k : CallId} (h : w.Redeems act t k) {e : Event}
    (he : e ∈ w.newly act) : ∃ call o, w.calls.get? k = some call ∧ call.outcome = some o ∧
      e = .resolved t o := by
  have asked : ∀ (v : World) (held : Option CallerId), v.calls = w.calls → v.events = w.events →
      (w.act act).events = (v.await t k held).events →
      ∃ call o, w.calls.get? k = some call ∧ call.outcome = some o ∧ e = .resolved t o := by
    intro v held calls before after
    obtain ⟨es, events, told⟩ := await_events v t k held
    rw [newly_of_events (by rw [after, events, before]), List.mem_reverse, List.mem_map] at he
    obtain ⟨e, he, rfl⟩ := he
    exact calls ▸ told e he
  have turned : ∀ {j : Job}, act = .turn t → w.tasks.get? t = some ⟨j, false⟩ →
      (w.act act).events = ((w.without t).work t j).events := by
    intro j ha task
    subst ha
    show (w.run t).events = _
    rw [run_of_task task]
    exact (releaseAfter_keeps ..).1
  cases h with
  | enter k => exact asked { w with tasks := w.tasks.reserve.2 } none rfl rfl rfl
  | begin t k task => exact asked (w.without t) none rfl rfl (turned rfl task)
  | again t k held task => exact asked (w.without t) held rfl rfl (turned rfl task)

end World

def Event.toldTo (t : TaskId) : Event → Option (Except Failure Payload)
  | .resolved t' o => if t' = t then some o else none
  | _ => none

theorem Event.toldTo_eq_some {t : TaskId} {e : Event} {o : Except Failure Payload}
    (h : e.toldTo t = some o) : e = .resolved t o := by
  cases e with
  | resolved t' o' => by_cases own : t' = t <;> simp_all [toldTo]
  | _ => simp [toldTo] at h

/-- **Dropping a caller does not lose its calls.** Whatever happens to the owners of a caller, every
call that it has accepted is pending, with a task that will end it at its deadline, or has come to
one of the four outcomes that a call can come to. A caller with a pending call is held by a task and
is not gone. And whoever waits for the outcome of a call is given the one that stands in its place,
so never one that only says that the caller has gone. -/
theorem calls_outlive_their_owners {w : World} {as : List Act} (new : w.IsNew)
    (run : w.CanRun as) :
    (∀ k call, (w.after as).calls.get? k = some call →
      (call.outcome = none → ∃ p ∈ (w.after as).pendingOf call.caller, p.call = k ∧
        ∃ timeout, (w.after as).watch? p.deadline = some (call.caller, call.id, timeout)) ∧
      ∀ o, call.outcome = some o → IsOutcome o) ∧
    (∀ i, ∀ p ∈ (w.after as).pendingOf i, (w.after as).isHeld (.caller i) = true ∧
      ∃ q, (w.after as).seat? (.caller i) = some q ∧ q.gone = false) ∧
    ∀ a t k o, (w.after as).Redeems a t k → .resolved t o ∈ (w.after as).newly a →
      IsOutcome o ∧ ∃ call, (w.after as).calls.get? k = some call ∧ call.outcome = some o := by
  have known : Along (fun _ _ => True) w as := run.mono fun _ _ _ => trivial
  obtain ⟨-, docket, honours⟩ := Honours.kept.run run known (.new new) ⟨.new new, .new new⟩
  obtain ⟨-, -, forsaken⟩ := Forsaken.kept.run run known (.new new) ⟨.new new, .new new⟩
  refine ⟨fun k call place => ⟨fun none => ?_, fun o outcome => ?_⟩, fun i p pends => ?_,
    fun a t k o redeems resolved => ?_⟩
  · obtain ⟨p, pends, rfl⟩ := docket.waiting k _ _ (none ▸ World.account_of_place place)
    obtain ⟨A, -, watch⟩ := docket.watched _ p pends
    have same := (World.account_of_place place).symm.trans (docket.places _ p pends)
    simp only [Option.some.injEq, Prod.mk.injEq, true_and] at same
    exact ⟨p, pends, rfl, A.timeout, same.1 ▸ watch⟩
  · exact honours k _ _ o (outcome ▸ World.account_of_place place)
  · refine ⟨docket.isHeld pends, ?_⟩
    obtain ⟨c, caller⟩ : ∃ c, (w.after as).callers.get? i = some c := by
      cases caller : (w.after as).callers.get? i with
      | none => simp [World.pendingOf, caller] at pends
      | some c => exact ⟨c, rfl⟩
    refine ⟨c.seat, by simp [World.seat?, caller], Bool.eq_false_iff.mpr fun gone => ?_⟩
    exact forsaken _ c.seat (by simp [World.seat?, caller]) gone (docket.held pends)
  · obtain ⟨call, o', place, outcome, same⟩ := redeems.told resolved
    cases same
    exact ⟨honours k _ _ o (outcome ▸ World.account_of_place place), call, place, outcome⟩

/-- A caller is dropped while its call is pending: it stays until the deadline, and whoever asks
for the outcome then is told of it. -/
theorem call_outlives_its_owner :
    let ids : MessageId.Source := { issue := fun n => .stamped 1 (BitVec.ofNat 74 n) }
    let w : World := { wall := 0, ids := ids }
    let as : List Act := [.command (.addLink ⟨"client", 1, 1, 0⟩), .command (.addCaller 0 false),
      .command (.invoke 0 ⟨"server", 2, 1, 1⟩ none .standard), .command (.drop (.caller 0) .inside),
      .turn 1, .turn 0]
    let bs : List Act := [.fire 10000, .turn 0]
    w.IsNew ∧ w.CanRun (as ++ bs) ∧
      (∃ q, (w.after as).seat? (.caller 0) = some q ∧ q.handles = 0 ∧ q.gone = false) ∧
      ∃ t o, .resolved t o ∈ (w.after (as ++ bs)).newly (.command (.enter (.await 0))) ∧
        IsOutcome o := by
  intro ids w as bs
  have new : w.IsNew := ⟨0, ids, rfl⟩
  have run : w.CanRun (as ++ bs) := by decide +kernel
  refine ⟨new, run, ?_, ?_⟩
  · have pends : (⟨ids.issue 0, 0, 0⟩ : PendingCall) ∈ (w.after as).pendingOf 0 := by
      decide +kernel
    obtain ⟨-, q, seat, here⟩ :=
      (calls_outlive_their_owners new (Along.append.mp run).1).2.1 0 _ pends
    have unowned : ((w.after as).seat? (.caller 0)).any (·.handles == 0) = true := by
      decide +kernel
    refine ⟨q, seat, ?_, here⟩
    simpa [seat] using unowned
  · have told : ((w.after (as ++ bs)).newly (.command (.enter (.await 0)))).findSome?
        (Event.toldTo (w.after (as ++ bs)).tasks.next) =
          some (.error (.deadlineExceeded (.ofMillis 10000))) := by decide +kernel
    have given := (calls_outlive_their_owners new run).2.2
    generalize w.after (as ++ bs) = v at told given ⊢
    obtain ⟨e, he, resolved⟩ := List.exists_of_findSome?_eq_some told
    cases Event.toldTo_eq_some resolved
    exact ⟨_, _, he, (given _ _ 0 _ (.enter 0) he).1⟩

end Switchboard
