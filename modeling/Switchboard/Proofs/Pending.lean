import Mathlib.Data.List.Nodup
import Switchboard.Proofs.Traffic
import Switchboard.Proofs.Wakes

/-! # Which calls are pending

A call that was accepted has a place for its outcome, an entry in the registry of its caller, and
a task that ends it at its deadline. `Fares` says all that can become of these three in a move: a
call is accepted, a call ends, or nothing changes. `Docket` says what follows for every moment of a
run, whatever ids the world issues: the places without an outcome, the entries and the deadlines
that are not cancelled are one and the same calls. Main statement: `Docket.kept`.
-/

namespace Switchboard

open History

/-- A call that was accepted: when, by whom, under which id and with which timeout. -/
structure Acceptance where
  time : Nat
  caller : CallerId
  id : MessageId
  timeout : Duration
  deriving DecidableEq, Repr

namespace History

def acceptances : History → List Acceptance
  | [] => []
  | (τ, .accepted i id timeout) :: h => acceptances h ++ [⟨τ, i, id, timeout⟩]
  | _ :: h => acceptances h

theorem acceptances_entries (h : History) : acceptances (entries h) = acceptances h := by
  induction h with
  | nil => rfl
  | cons e h ih =>
    obtain ⟨τ, e⟩ := e
    cases e <;> simp_all [entries, isEntry, acceptances]

theorem acceptances_congr {h h' : History} (he : entries h = entries h') :
    acceptances h = acceptances h' := by
  rw [← acceptances_entries, he, acceptances_entries]

theorem acceptances_prefix {h h' : History} (hs : h <:+ h') : acceptances h <+: acceptances h' := by
  obtain ⟨es, rfl⟩ := hs
  induction es with
  | nil => exact List.prefix_rfl
  | cons e es ih =>
    obtain ⟨τ, e⟩ := e
    rw [List.cons_append]
    cases e with
    | accepted i id timeout => exact ih.trans (List.prefix_append ..)
    | _ => exact ih

theorem acceptances_get? {h h' : History} (hs : h <:+ h') {k : Nat} {A : Acceptance}
    (hk : (acceptances h)[k]? = some A) : (acceptances h')[k]? = some A := by
  obtain ⟨As, hA⟩ := acceptances_prefix hs
  rw [← hA, List.getElem?_append_left (List.getElem?_eq_some_iff.mp hk).1, hk]

end History

/-- The call that a job ends at its deadline, and the timeout that it gives as the reason. -/
def Job.watch? : Job → Option (CallerId × MessageId × Duration)
  | .deadline i id timeout => some (i, id, timeout)
  | .expire i id timeout => some (i, id, timeout)
  | _ => none

theorem Job.watch?_of_call {j : Job} (h : j.call? = none) : j.watch? = none := by
  cases j <;> first | rfl | cases h

/-- A job that watches a call arms its timer or ends it. -/
theorem Job.watch?_eq_some {j : Job} {i : CallerId} {id : MessageId} {timeout : Duration} :
    j.watch? = some (i, id, timeout) ↔ j = .deadline i id timeout ∨ j = .expire i id timeout := by
  cases j <;> simp [watch?]

namespace World

/-- The call that a task watches, unless the task is cancelled. -/
def watch? (w : World) (k : TaskId) : Option (CallerId × MessageId × Duration) :=
  (w.tasks.get? k).bind fun x => if x.cancelled then none else x.job.watch?

variable {w v : World} {t k : TaskId} {j : Job}

theorem watch?_congr (tasks : v.tasks.get? k = w.tasks.get? k) : v.watch? k = w.watch? k := by
  rw [watch?, watch?, tasks]

theorem watch?_of_free (free : w.tasks.get? k = none) : w.watch? k = none := by
  rw [watch?, free, Option.bind_none]

theorem watch?_of_task (task : w.tasks.get? k = some ⟨j, false⟩) : w.watch? k = j.watch? := by
  simp [watch?, task]

theorem watch?_of_cancelled (task : w.tasks.get? k = some ⟨j, true⟩) : w.watch? k = none := by
  simp [watch?, task]

theorem watch?_eq_some {i : CallerId} {id : MessageId} {timeout : Duration} :
    w.watch? k = some (i, id, timeout) ↔ ∃ j, w.tasks.get? k = some ⟨j, false⟩ ∧
      (j = .deadline i id timeout ∨ j = .expire i id timeout) := by
  simp only [watch?, Option.bind_eq_some_iff, ← Job.watch?_eq_some]
  constructor
  · rintro ⟨⟨j, cancelled⟩, task, watches⟩
    cases cancelled with
    | true => cases watches
    | false => exact ⟨j, task, watches⟩
  · rintro ⟨j, task, watches⟩
    exact ⟨⟨j, false⟩, task, watches⟩

theorem watch?_set (tasks : v.tasks.get? k = (w.tasks.set t ⟨j, false⟩).get? k) :
    v.watch? k = if k = t then j.watch? else w.watch? k := by
  rw [watch?, tasks, Table.get?_set]
  split
  · simp
  · rfl

theorem watch?_insert (tasks : v.tasks.get? k = (w.tasks.insert ⟨j, false⟩).2.get? k) :
    v.watch? k = if k = w.tasks.next then j.watch? else w.watch? k := by
  rw [watch?, tasks, Table.get?_insert]
  split
  · simp
  · rfl

/-- A new task that watches nothing changes nothing. -/
theorem watch?_insert_none (tidy : w.Tidy) (never : j.watch? = none)
    (tasks : v.tasks.get? k = (w.tasks.insert ⟨j, false⟩).2.get? k) : v.watch? k = w.watch? k := by
  rw [watch?_insert tasks, never]
  split
  · rename_i hk
    rw [hk, watch?_of_free tidy.tasks.next]
  · rfl

theorem watch?_broadcast (tidy : w.Tidy) (m : Message) (k : TaskId) :
    (w.broadcast m).watch? k = w.watch? k := by
  rcases Nat.lt_or_ge k w.tasks.next with old | new
  · exact watch?_congr ((broadcast_spawns w m (w.hub.recipients m) tidy.tasks).2.2 k old)
  · rw [watch?_of_free (tidy.tasks k new)]
    cases task : (w.broadcast m).tasks.get? k with
    | none => exact watch?_of_free task
    | some x =>
      rcases broadcast_task tidy.tasks task with old | ⟨n, l, -, -, rfl⟩
      · rw [tidy.tasks k new] at old
        cases old
      · exact watch?_of_task task

/-- The deadline of the call that ends watches it no more, nor anything else. -/
theorem watch?_complete {i : CallerId} {id : MessageId} {p : PendingCall}
    (hp : (w.callers.get? i).bind (·.pending? id) = some p) (cause : Cause) (k : TaskId) :
    (w.complete i id cause).watch? k = if k = p.deadline then none else w.watch? k := by
  rw [watch?, complete_tasks_get? hp]
  split
  · cases w.tasks.get? k <;> rfl
  · rfl

end World

/-- The parts of a call's place that do not depend on who waits for it. -/
def World.account (w : World) (k : CallId) :
    Option (CallerId × MessageId × Option (Except Failure Payload)) :=
  (w.calls.get? k).map fun c => (c.caller, c.id, c.outcome)

theorem World.account_of_place {w : World} {k : CallId} {call : Call}
    (place : w.calls.get? k = some call) :
    w.account k = some (call.caller, call.id, call.outcome) := by
  simp [account, place]

/-- The place of the call that ends gets its outcome. -/
theorem World.complete_account {w : World} {i : CallerId} {id : MessageId} {p : PendingCall}
    (hp : (w.callers.get? i).bind (·.pending? id) = some p) (cause : Cause) (k : CallId) :
    (w.complete i id cause).account k = if k = p.call then
      (w.account k).map fun c => (c.1, c.2.1, some cause.outcome) else w.account k := by
  rw [account, complete_calls_get? hp, account]
  split
  · rw [Option.map_map, Option.map_map]
    rfl
  · rfl

/-! ## The docket -/

namespace World

/-- The calls that wait for an outcome, whether one reads the places, the registries or the tasks
of the deadlines. -/
structure Docket (w : World) : Prop where
  numbered : (acceptances w.events).length = w.calls.next
  named : ∀ k i id o, w.account k = some (i, id, o) →
    ∃ A, (acceptances w.events)[k]? = some A ∧ A.caller = i ∧ A.id = id
  places : ∀ i, ∀ p ∈ w.pendingOf i, w.account p.call = some (i, p.id, none)
  waiting : ∀ k i id, w.account k = some (i, id, none) → ∃ p ∈ w.pendingOf i, p.call = k
  sole : ∀ i, ((w.pendingOf i).map (·.id)).Nodup
  watched : ∀ i, ∀ p ∈ w.pendingOf i, ∃ A, (acceptances w.events)[p.call]? = some A ∧
    w.watch? p.deadline = some (i, p.id, A.timeout)
  live : ∀ t i id timeout, w.watch? t = some (i, id, timeout) →
    ∃ p ∈ w.pendingOf i, p.deadline = t ∧ p.id = id

namespace Docket

variable {w v : World} {i i' : CallerId} {p p' : PendingCall}

theorem new (h : w.IsNew) : w.Docket := by
  obtain ⟨wall, ids, rfl⟩ := h
  refine ⟨rfl, ?_, ?_, ?_, ?_, ?_, ?_⟩ <;>
    simp [account, pendingOf, watch?, Table.get?]

theorem eq_of_id (h : w.Docket) (hp : p ∈ w.pendingOf i) (hp' : p' ∈ w.pendingOf i)
    (same : p.id = p'.id) : p = p' :=
  List.inj_on_of_nodup_map (h.sole i) hp hp' same

theorem eq_of_call (h : w.Docket) (hp : p ∈ w.pendingOf i) (hp' : p' ∈ w.pendingOf i')
    (same : p.call = p'.call) : i = i' ∧ p = p' := by
  have both := (h.places i p hp).symm.trans (same ▸ h.places i' p' hp')
  simp only [Option.some.injEq, Prod.mk.injEq] at both
  obtain ⟨rfl, hid, -⟩ := both
  exact ⟨rfl, h.eq_of_id hp hp' hid⟩

theorem eq_of_deadline (h : w.Docket) (hp : p ∈ w.pendingOf i) (hp' : p' ∈ w.pendingOf i')
    (same : p.deadline = p'.deadline) : i = i' ∧ p = p' := by
  obtain ⟨A, -, watch⟩ := h.watched i p hp
  obtain ⟨A', -, watch'⟩ := h.watched i' p' hp'
  have both := watch.symm.trans (same ▸ watch')
  simp only [Option.some.injEq, Prod.mk.injEq] at both
  obtain ⟨rfl, hid, -⟩ := both
  exact ⟨rfl, h.eq_of_id hp hp' hid⟩

theorem pending?_eq (h : w.Docket) (hp : p ∈ w.pendingOf i) :
    (w.callers.get? i).bind (·.pending? p.id) = some p := by
  cases found : (w.callers.get? i).bind (·.pending? p.id) with
  | none => exact absurd rfl (Ledger.notMem_pendingOf found p hp)
  | some q =>
    obtain ⟨hq, same⟩ := Ledger.mem_pendingOf found
    rw [h.eq_of_id hq hp same]

theorem deadline_eq (h : w.Docket) {t : TaskId} {id : MessageId} {timeout : Duration}
    (watch : w.watch? t = some (i, id, timeout))
    (hp : (w.callers.get? i).bind (·.pending? id) = some p) : p.deadline = t := by
  obtain ⟨q, hq, rfl, rfl⟩ := h.live t i id timeout watch
  cases (h.pending?_eq hq).symm.trans hp
  rfl

theorem isHeld (h : w.Docket) (hp : p ∈ w.pendingOf i) : w.isHeld (.caller i) = true := by
  obtain ⟨A, -, watch⟩ := h.watched i p hp
  obtain ⟨j, task, job⟩ := watch?_eq_some.mp watch
  refine Table.any_of_get? task ?_
  rcases job with rfl | rfl <;> simp [Job.holds]

/-- A caller that nobody holds waits for no outcome. -/
theorem pendingOf_of_unheld (h : w.Docket) (unheld : w.isHeld (.caller i) = false) :
    w.pendingOf i = [] := by
  refine List.eq_nil_iff_forall_not_mem.mpr fun p pends => ?_
  rw [h.isHeld pends] at unheld
  cases unheld

/-- An engine that goes away takes no outcome with it. -/
theorem remove_calls (h : w.Docket) {e : EngineId} (unheld : w.isHeld e = false) (p : Seat)
    (side : Side) : (w.remove e p side).calls = w.calls := by
  refine remove_idle p side fun i c he caller => ?_
  subst he
  simpa [pendingOf, caller] using h.pendingOf_of_unheld unheld

theorem congr (h : w.Docket) (next : v.calls.next = w.calls.next)
    (places : ∀ k, v.account k = w.account k) (pending : ∀ i, v.pendingOf i = w.pendingOf i)
    (watches : ∀ k, v.watch? k = w.watch? k)
    (history : acceptances v.events = acceptances w.events) : v.Docket := by
  constructor
  case numbered => rw [history, next, h.numbered]
  case named => intro k; rw [history, places]; exact h.named k
  case places => intro i; rw [pending]; intro p; rw [places]; exact h.places i p
  case waiting => intro k i id; rw [places, pending]; exact h.waiting k i id
  case sole => intro i; rw [pending]; exact h.sole i
  case watched => intro i; rw [pending]; intro p; rw [history, watches]; exact h.watched i p
  case live => intro t i id timeout; rw [watches, pending]; exact h.live t i id timeout

end Docket

end World

/-! ## What becomes of the calls -/

open World in
/-- What can become of the calls of a world, seen from their places, the registries of their callers
and the tasks of their deadlines. -/
inductive Fares (a b : Option TaskId × World) : Prop
  | quiet (next : b.2.calls.next = a.2.calls.next) (places : ∀ k, b.2.account k = a.2.account k)
      (pending : ∀ i, b.2.pendingOf i = a.2.pendingOf i)
      (watches : ∀ k, b.2.watch? k = a.2.watch? k)
      (history : acceptances b.2.events = acceptances a.2.events)
  /-- A pending call ends; if that is what its deadline does, then with the deadline's timeout. -/
  | ended (i : CallerId) (p : PendingCall) (cause : Cause) (pends : p ∈ a.2.pendingOf i)
      (next : b.2.calls.next = a.2.calls.next)
      (places : ∀ k, b.2.account k = if k = p.call then
        (a.2.account k).map fun c => (c.1, c.2.1, some cause.outcome) else a.2.account k)
      (pending : ∀ i', b.2.pendingOf i' =
        if i' = i then (a.2.pendingOf i').filter (·.id != p.id) else a.2.pendingOf i')
      (watches : ∀ k, b.2.watch? k = if k = p.deadline then none else a.2.watch? k)
      (history : acceptances b.2.events = acceptances a.2.events)
      (lapses : ∀ timeout, cause = .lapsed timeout →
        ∃ t, a.1 = some t ∧ a.2.tasks.get? t = some ⟨.expire i p.id timeout, false⟩)
  /-- A call is accepted, if its timeout makes a time to live. -/
  | accepted (i : CallerId) (id : MessageId) (timeout : Duration)
      (vacant : ∀ p ∈ a.2.pendingOf i, p.id ≠ id) (long : 0 < timeout.floorMillis)
      (next : b.2.calls.next = a.2.calls.next + 1)
      (places : ∀ k, b.2.account k =
        if k = a.2.calls.next then some (i, id, none) else a.2.account k)
      (pending : ∀ i', b.2.pendingOf i' = if i' = i then
        ⟨id, a.2.calls.next, a.2.tasks.next⟩ :: a.2.pendingOf i' else a.2.pendingOf i')
      (watches : ∀ k, b.2.watch? k =
        if k = a.2.tasks.next then some (i, id, timeout) else a.2.watch? k)
      (history : acceptances b.2.events = acceptances a.2.events ++ [⟨a.2.now, i, id, timeout⟩])
      (starts : b.2.tasks.get? a.2.tasks.next = some ⟨.deadline i id timeout, false⟩ ∧
        a.2.tasks.next ∈ b.2.ready)

namespace Fares

open World

variable {a b : Option TaskId × World} {i : CallerId}

/-- At most one call is accepted at a time. -/
theorem accepts (h : Fares a b) : acceptances b.2.events = acceptances a.2.events ∨
    ∃ A : Acceptance, 0 < A.timeout.floorMillis ∧
      acceptances b.2.events = acceptances a.2.events ++ [A] := by
  cases h with
  | quiet next places pending watches history => exact .inl history
  | ended i p cause pends next places pending watches history => exact .inl history
  | accepted i id timeout vacant long next places pending watches history =>
    exact .inr ⟨⟨a.2.now, i, id, timeout⟩, long, history⟩

/-- A pending call was pending before or has just been accepted. -/
theorem entry (h : Fares a b) {p : PendingCall} (pends : p ∈ b.2.pendingOf i) :
    p ∈ a.2.pendingOf i ∨ ∃ timeout, p.call = a.2.calls.next ∧ p.deadline = a.2.tasks.next ∧
      0 < timeout.floorMillis ∧
      acceptances b.2.events =
        acceptances a.2.events ++ [⟨a.2.now, i, p.id, timeout⟩] ∧
      b.2.tasks.get? p.deadline = some ⟨.deadline i p.id timeout, false⟩ ∧
      p.deadline ∈ b.2.ready := by
  cases h with
  | quiet next places pending watches history => exact .inl (pending i ▸ pends)
  | ended i' q cause pends' next places pending watches history =>
    rw [pending] at pends
    split at pends
    · exact .inl (List.mem_filter.mp pends).1
    · exact .inl pends
  | accepted i' id timeout vacant long next places pending watches history starts =>
    rw [pending] at pends
    split at pends
    · rename_i hi
      subst hi
      rcases List.mem_cons.mp pends with rfl | old
      · exact .inr ⟨timeout, rfl, rfl, long, history, starts⟩
      · exact .inl old
    · exact .inl pends

/-- A call that has its outcome had it before, or something has ended it that was pending. -/
theorem outcome (h : Fares a b) (docket : a.2.Docket) {k : CallId} {id : MessageId}
    {o : Except Failure Payload} (place : b.2.account k = some (i, id, some o)) :
    a.2.account k = some (i, id, some o) ∨ ∃ p ∈ a.2.pendingOf i, ∃ cause : Cause,
      p.call = k ∧ p.id = id ∧ o = cause.outcome ∧ ∀ timeout, cause = .lapsed timeout →
        ∃ t, a.1 = some t ∧ a.2.tasks.get? t = some ⟨.expire i id timeout, false⟩ := by
  cases h with
  | quiet next places pending watches history => exact .inl (places k ▸ place)
  | ended i' p cause pends next places pending watches history lapses =>
    rw [places] at place
    split at place
    · rename_i hk
      rw [hk, docket.places i' p pends] at place
      cases place
      exact .inr ⟨p, pends, cause, hk.symm, rfl, rfl, lapses⟩
    · exact .inl place
  | accepted i' id' timeout vacant long next places pending watches history starts =>
    rw [places] at place
    split at place
    · cases place
    · exact .inl place

end Fares

/-- A request that was finished has a time to live. -/
theorem Caller.timeout_of_finish {c : Caller} {method : Address} {options : CallOptions}
    {id : MessageId} {payload : Option Payload} {m : Message}
    (h : (c.draft method options id).finish id payload = .ok m) :
    0 < options.timeout.floorMillis := by
  obtain ⟨isRequest, -, -, -, -, -, valid⟩ := Caller.finish_draft h
  have own : m.attributes.kind = RuleSet.request.kind := eq_of_beq isRequest
  have ttl : m.attributes.ttl = some options.ttlMillis := by
    obtain ⟨rfl, -⟩ := Draft.finish_ok h
    cases ht : options.token <;>
      simp [Caller.draft, ht, Draft.set?, Draft.set, Draft.request, Draft.identified]
  have positive : options.ttlMillis ≠ 0 := by
    obtain ⟨-, lives⟩ := List.append_eq_nil_iff.mp ((Attributes.isValid_iff_of_kind own).mp valid).2
    simpa [Attributes.ttlDefects, ttl] using lives
  refine Nat.pos_of_ne_zero fun zero => positive ?_
  simp [CallOptions.ttlMillis, zero]

/-- When a pending call comes to an outcome, it is struck from the docket and the others stay. -/
theorem World.Docket.ended {w v : World} (h : w.Docket) {i : CallerId} {p : PendingCall}
    {o : Except Failure Payload} (pends : p ∈ w.pendingOf i) (next : v.calls.next = w.calls.next)
    (places : ∀ k, v.account k = if k = p.call then
      (w.account k).map fun c => (c.1, c.2.1, some o) else w.account k)
    (pending : ∀ i', v.pendingOf i' =
      if i' = i then (w.pendingOf i').filter (·.id != p.id) else w.pendingOf i')
    (watches : ∀ k, v.watch? k = if k = p.deadline then none else w.watch? k)
    (history : acceptances v.events = acceptances w.events) : v.Docket := by
  have left : ∀ i' q, q ∈ v.pendingOf i' ↔ q ∈ w.pendingOf i' ∧ ¬(i = i' ∧ p = q) := by
    intro i' q
    rw [pending]
    split
    · rename_i hi
      subst hi
      simp only [List.mem_filter, bne_iff_ne, true_and]
      refine and_congr_right fun hq => not_congr ⟨fun same => ?_, fun same => ?_⟩
      · exact h.eq_of_id pends hq same.symm
      · rw [same]
    · rename_i hi
      exact ⟨fun hq => ⟨hq, fun same => hi same.1.symm⟩, And.left⟩
  constructor
  case numbered => rw [history, next, h.numbered]
  case named =>
    intro k i' id o hk
    rw [places] at hk
    rw [history]
    split at hk
    · obtain ⟨⟨j, id', o'⟩, place, he⟩ := Option.map_eq_some_iff.mp hk
      cases he
      exact h.named k _ _ _ place
    · exact h.named k _ _ _ hk
  case places =>
    intro i' q hq
    obtain ⟨hq, other⟩ := (left i' q).mp hq
    rw [places, if_neg fun same => other (h.eq_of_call pends hq same.symm)]
    exact h.places i' q hq
  case waiting =>
    intro k i' id hk
    rw [places] at hk
    split at hk
    · obtain ⟨c, -, he⟩ := Option.map_eq_some_iff.mp hk
      cases he
    · rename_i hp
      obtain ⟨q, hq, hc⟩ := h.waiting k i' id hk
      refine ⟨q, (left i' q).mpr ⟨hq, fun same => hp ?_⟩, hc⟩
      rw [same.2, hc]
  case sole =>
    intro i'
    rw [pending]
    split
    · exact (h.sole i').sublist (List.filter_sublist.map _)
    · exact h.sole i'
  case watched =>
    intro i' q hq
    obtain ⟨hq, other⟩ := (left i' q).mp hq
    rw [history, watches, if_neg fun same => other (h.eq_of_deadline pends hq same.symm)]
    exact h.watched i' q hq
  case live =>
    intro t i' id timeout watch
    rw [watches] at watch
    split at watch
    · cases watch
    · rename_i hp
      obtain ⟨q, hq, hd, hid⟩ := h.live t i' id timeout watch
      refine ⟨q, (left i' q).mpr ⟨hq, fun same => hp ?_⟩, hd, hid⟩
      rw [same.2, hd]

/-- When a call is accepted it is entered in the docket, and the others stay. -/
theorem World.Docket.accepted {w v : World} (h : w.Docket) (tidy : w.Tidy) {i : CallerId}
    {id : MessageId} {timeout : Duration} (vacant : ∀ p ∈ w.pendingOf i, p.id ≠ id)
    (next : v.calls.next = w.calls.next + 1)
    (places : ∀ k, v.account k = if k = w.calls.next then some (i, id, none) else w.account k)
    (pending : ∀ i', v.pendingOf i' = if i' = i then
      ⟨id, w.calls.next, w.tasks.next⟩ :: w.pendingOf i' else w.pendingOf i')
    (watches : ∀ k, v.watch? k =
      if k = w.tasks.next then some (i, id, timeout) else w.watch? k)
    (history : acceptances v.events = acceptances w.events ++ [⟨w.now, i, id, timeout⟩]) :
    v.Docket := by
  have bound : ∀ i' q, q ∈ w.pendingOf i' →
      q.call ≠ w.calls.next ∧ q.deadline ≠ w.tasks.next := by
    intro i' q hq
    obtain ⟨A, -, watch⟩ := h.watched i' q hq
    refine ⟨fun new => ?_, fun new => ?_⟩
    · have place := h.places i' q hq
      rw [new, account, tidy.calls.next] at place
      cases place
    · rw [new, watch?_of_free tidy.tasks.next] at watch
      cases watch
  have members : ∀ i' q, q ∈ v.pendingOf i' ↔
      i' = i ∧ q = ⟨id, w.calls.next, w.tasks.next⟩ ∨ q ∈ w.pendingOf i' := by
    intro i' q
    rw [pending]
    split <;> simp_all
  have latest : (acceptances v.events)[w.calls.next]? = some ⟨w.now, i, id, timeout⟩ := by
    rw [history, ← h.numbered, List.getElem?_concat_length]
  have earlier : ∀ {k : Nat} {A : Acceptance}, (acceptances w.events)[k]? = some A →
      (acceptances v.events)[k]? = some A := by
    intro k A hk
    rw [history, List.getElem?_append_left (List.getElem?_eq_some_iff.mp hk).1, hk]
  constructor
  case numbered => rw [history, next, ← h.numbered, List.length_append, List.length_singleton]
  case named =>
    intro k i' id' o hk
    rw [places] at hk
    split at hk
    · rename_i hn
      cases hk
      exact ⟨_, hn ▸ latest, rfl, rfl⟩
    · obtain ⟨A, hA, own⟩ := h.named k i' id' o hk
      exact ⟨A, earlier hA, own⟩
  case places =>
    intro i' q hq
    rw [places]
    rcases (members i' q).mp hq with ⟨rfl, rfl⟩ | old
    · simp
    · rw [if_neg (bound i' q old).1, h.places i' q old]
  case waiting =>
    intro k i' id' hk
    rw [places] at hk
    split at hk
    · rename_i hn
      cases hk
      exact ⟨_, (members _ _).mpr (.inl ⟨rfl, rfl⟩), hn.symm⟩
    · obtain ⟨q, hq, hc⟩ := h.waiting k i' id' hk
      exact ⟨q, (members _ _).mpr (.inr hq), hc⟩
  case sole =>
    intro i'
    rw [pending]
    split
    · rename_i hi
      subst hi
      refine List.nodup_cons.mpr ⟨fun hid => ?_, h.sole i'⟩
      obtain ⟨q, hq, same⟩ := List.mem_map.mp hid
      exact vacant q hq same
    · exact h.sole i'
  case watched =>
    intro i' q hq
    rcases (members i' q).mp hq with ⟨rfl, rfl⟩ | old
    · exact ⟨_, latest, by simp [watches]⟩
    · obtain ⟨A, hA, watch⟩ := h.watched i' q old
      exact ⟨A, earlier hA, by rw [watches, if_neg (bound i' q old).2, watch]⟩
  case live =>
    intro t i' id' timeout' watch
    rw [watches] at watch
    split at watch
    · rename_i hn
      cases watch
      exact ⟨_, (members _ _).mpr (.inl ⟨rfl, rfl⟩), hn.symm, rfl⟩
    · obtain ⟨q, hq, own⟩ := h.live t i' id' timeout' watch
      exact ⟨q, (members _ _).mpr (.inr hq), own⟩

theorem World.Docket.fare {a b : Option TaskId × World} (h : a.2.Docket) (tidy : a.2.Tidy)
    (fares : Fares a b) : b.2.Docket := by
  cases fares with
  | quiet next places pending watches history =>
    exact h.congr next places pending watches history
  | ended i p cause pends next places pending watches history =>
    exact h.ended pends next places pending watches history
  | accepted i id timeout vacant long next places pending watches history starts =>
    exact h.accepted tidy vacant next places pending watches history

/-! ## Moves -/

theorem World.onward_watch? (w : World) (t : TaskId) (u : Use) {j : Job}
    (h : (w.onward t u).2 = some j) : j.watch? = none := by
  cases u with
  | request i id m =>
    simp only [onward] at h
    split at h <;> cases h
    rfl
  | serve s method hd => cases h

theorem Passes.watch? {w : World} {t : TaskId} {j : Job} {es : List Event} {next : Option Job}
    (h : Passes w t j es next) {j' : Job} (goes : next = some j') : j'.watch? = none := by
  cases h with
  | useAtOnce u registered => exact w.onward_watch? t u goes
  | use u registered => exact w.onward_watch? t u goes
  | _ => cases goes <;> rfl

namespace World

variable {a b : Option TaskId × World} {w : World} {t : TaskId} {j : Job}

theorem watch?_park (w : World) (t : TaskId) (j : Job) (k : TaskId) :
    (w.park t j).watch? k = if k = t then j.watch? else w.watch? k := watch?_set rfl

theorem watch?_park_none (free : w.tasks.get? t = none) (never : j.watch? = none) (k : TaskId) :
    (w.park t j).watch? k = w.watch? k := by
  rw [watch?_park, never]
  split
  · rename_i hk
    rw [hk, watch?_of_free free]
  · rfl

theorem account_congr {v : World} (calls : v.calls = w.calls) (k : CallId) :
    v.account k = w.account k := by
  rw [account, account, calls]

/-- Events that are no entries tell of no acceptance. -/
theorem acceptances_recordAll {es : List Event} (noted : ∀ e ∈ es, isEntry e = false) :
    acceptances (w.recordAll es).events = acceptances w.events := by
  rw [recordAll_events]
  exact acceptances_congr (entries_append noted ..)

/-- The running task watches no call, what it does concerns none, and it goes on or ends. -/
theorem fares_quiet {v : World} (ha : a = (some t, w.park t j))
    (after : b.2 = v ∨ ∃ j', j'.watch? = none ∧ b.2 = v.park t j') (free : w.tasks.get? t = none)
    (never : j.watch? = none) (places : ∀ k, v.account k = w.account k)
    (next : v.calls.next = w.calls.next) (tasks : v.tasks = w.tasks)
    (pending : ∀ i, v.pendingOf i = w.pendingOf i)
    (history : acceptances v.events = acceptances w.events) : Fares a b := by
  subst ha
  have same : ∀ k, v.watch? k = (w.park t j).watch? k := fun k =>
    (watch?_congr (by rw [tasks])).trans (watch?_park_none free never k).symm
  rcases after with hb | ⟨j', never', hb⟩
  · exact .quiet (hb ▸ next) (hb ▸ places) (hb ▸ pending) (hb ▸ same) (hb ▸ history)
  · have goes := fun k => (watch?_park_none (tasks ▸ free) never' k).trans (same k)
    exact .quiet (hb ▸ next) (hb ▸ places) (hb ▸ pending) (hb ▸ goes) (hb ▸ history)

/-- A thing that ends a call, if the call is pending. -/
theorem fares_complete {i : CallerId} {id : MessageId} {cause : Cause}
    (callers : ∀ i, w.pendingOf i = a.2.pendingOf i)
    (entry : (w.callers.get? i).bind (·.pending? id) = (a.2.callers.get? i).bind (·.pending? id))
    (before : w.calls = a.2.calls)
    (watches : ∀ k, (∀ p, (w.callers.get? i).bind (·.pending? id) = some p → k ≠ p.deadline) →
      w.watch? k = a.2.watch? k)
    (events : acceptances w.events = acceptances a.2.events)
    (calls : b.2.calls = (w.complete i id cause).calls)
    (pending : ∀ j, b.2.pendingOf j = (w.complete i id cause).pendingOf j)
    (tasks : b.2.tasks = (w.complete i id cause).tasks)
    (history : acceptances b.2.events = acceptances w.events)
    (lapses : ∀ timeout, cause = .lapsed timeout →
      ∃ t, a.1 = some t ∧ a.2.tasks.get? t = some ⟨.expire i id timeout, false⟩) : Fares a b := by
  cases hp : (w.callers.get? i).bind (·.pending? id) with
  | none =>
    have idle := complete_of_none hp cause
    rw [idle] at calls pending tasks
    refine .quiet (by rw [calls, ← before]; rfl) (fun k => ?_) (fun j => ?_) (fun k => ?_)
      (history.trans events)
    · exact account_congr (calls.trans before) k
    · exact (pending j).trans (callers j)
    · exact (watch?_congr (by rw [tasks]; rfl)).trans
        (watches k fun p h => by rw [hp] at h; cases h)
  | some p =>
    obtain ⟨pends, rfl⟩ := Ledger.mem_pendingOf (entry ▸ hp)
    refine .ended i p cause pends (by rw [calls, ← before]; simp) (fun k => ?_) (fun j => ?_)
      (fun k => ?_) (history.trans events) lapses
    · rw [account_congr calls, complete_account hp, account_congr before]
    · rw [pending, Ledger.pendingOf_complete hp, callers, callers]
      split
      · rename_i hj
        rw [hj]
      · rfl
    · rw [watch?_congr (w := w.complete i p.id cause) (by rw [tasks]), watch?_complete hp]
      split
      · rfl
      · rename_i other
        refine watches k fun q hq => ?_
        cases hp.symm.trans hq
        exact other

/-- The running task watches no call, and ends one before its deadline. -/
theorem fares_ended {v : World} {i : CallerId} {id : MessageId} {cause : Cause} (es : List Event)
    (ha : a = (some t, w.park t j)) (free : w.tasks.get? t = none) (never : j.watch? = none)
    (calls : v.calls = w.calls) (tasks : v.tasks = w.tasks)
    (pending : ∀ i, v.pendingOf i = w.pendingOf i)
    (entry : (v.callers.get? i).bind (·.pending? id) = (w.callers.get? i).bind (·.pending? id))
    (history : acceptances v.events = acceptances w.events) (early : ∀ d, cause ≠ .lapsed d)
    (noted : ∀ e ∈ es, isEntry e = false)
    (hb : b.2 = (v.complete i id cause).recordAll es) : Fares a b := by
  subst ha
  refine fares_complete pending entry calls (fun k _ => ?_) history (by simp [hb])
    (fun j => by simp [hb]) (by simp [hb]) ?_ fun d hd => absurd hd (early d)
  · exact (watch?_congr (by rw [tasks])).trans (watch?_park_none free never k).symm
  · rw [hb, acceptances_recordAll noted]
    simp [acceptances]

theorem fares_accept (tidy : w.Tidy) {i : CallerId} {c : Caller} {method : Address}
    {payload : Option Payload} {options : CallOptions} {m : Message}
    (caller : w.callers.get? i = some c)
    (finish : (c.draft method options w.mint.1).finish w.mint.1 payload = .ok m)
    (vacant : c.pending? w.mint.1 = none)
    (before : a.2.callers = w.callers ∧ a.2.calls = w.calls ∧ a.2.tasks.next = w.tasks.next ∧
      a.2.now = w.now ∧ a.2.events = w.events) (watches : ∀ k, a.2.watch? k = w.watch? k)
    {v : World} (made : v = (w.mint.2.accept i m w.mint.1 options.timeout).2)
    (after : b.2.callers = v.callers ∧ b.2.calls = v.calls ∧ b.2.ready = v.ready ∧
      b.2.events = v.events) (tasks : ∀ k, b.2.watch? k = v.watch? k)
    (first : b.2.tasks.get? w.tasks.next = v.tasks.get? w.tasks.next) : Fares a b := by
  obtain ⟨callers, calls, next, now, events⟩ := before
  obtain ⟨callers', calls', ready', events'⟩ := after
  have pending : ∀ j, a.2.pendingOf j = w.pendingOf j := fun j => pendingOf_congr callers j
  refine .accepted i w.mint.1 options.timeout (fun p hp => ?_) (Caller.timeout_of_finish finish)
    ?_ (fun k => ?_) (fun j => ?_) (fun k => ?_) ?_ ⟨?_, ?_⟩
  · rw [pending] at hp
    exact Ledger.notMem_pendingOf (by rw [caller, Option.bind_some, vacant]) p hp
  · rw [calls', made, calls]
    simp
  · rw [account, calls', made, account, calls]
    simp only [accept_keeps, mint_keeps, Table.get?_insert]
    split <;> rfl
  · rw [pendingOf_congr callers', made, Ledger.pendingOf_accept caller, pending, calls, next]
  · rw [tasks, watches, next]
    have fresh := tidy.tasks (w.tasks.next + 1) (Nat.le_succ _)
    subst made
    simp only [watch?, accept_keeps, mint_keeps, Table.get?_insert, Table.insert_next]
    by_cases second : k = w.tasks.next + 1
    · subst second
      simp [fresh, Job.watch?]
    · by_cases hk : k = w.tasks.next
      · simp [hk, Job.watch?]
      · simp [hk, second]
  · rw [events', made, events, now]
    rfl
  · rw [next, first, made]
    simp
  · rw [next, ready', made]
    simp [accept, spawn, modifyCaller, record]

/-- An engine that goes away has no calls. -/
theorem Docket.fares_remove (h : w.Docket) (tidy : w.Tidy) {e : EngineId} (p : Seat) (side : Side)
    (unheld : w.isHeld e = false) : Fares (none, w) (none, w.remove e p side) := by
  refine .quiet (by simp) (fun k => ?_) (fun i => ?_) (fun k => ?_) (by simp)
  · exact account_congr (h.remove_calls unheld p side) k
  · rw [pendingOf, remove_callers]
    split
    · rename_i he
      rw [h.pendingOf_of_unheld (he ▸ unheld)]
      cases w.callers.get? i <;> rfl
    · rfl
  · rcases remove_tasks w e p side with ⟨-, -, -, tasks⟩ | tasks
    · exact watch?_insert_none tidy rfl (by rw [tasks])
    · exact watch?_congr (by rw [tasks])

theorem fares_pass {es : List Event} {next : Option Job} (free : w.tasks.get? t = none)
    (passes : Passes w t j es next) :
    Fares (some t, w.park t j) (next.map fun _ => t, w.proceed t es next) := by
  refine fares_quiet (v := w.recordAll es) rfl ?_ free (Job.watch?_of_call passes.quiet.1)
    (account_congr (by simp)) (by simp) (by simp) (by simp) (acceptances_recordAll passes.quiet.2)
  cases next with
  | none => exact .inl rfl
  | some j' => exact .inr ⟨j', passes.watch? rfl, rfl⟩

theorem fares_sleep {ms : Nat} {j' : Job} (free : w.tasks.get? t = none) (never : j.watch? = none)
    (never' : j'.watch? = none) : Fares (some t, w.park t j) (none, w.sleep t ms j') :=
  fares_quiet (v := { w with timers := w.timers ++ [⟨w.now + min ms longestSleep, t⟩] }) rfl
    (.inr ⟨j', never', rfl⟩) free never (fun _ => rfl) rfl rfl (fun _ => rfl) rfl

/-- The deadline of a call ends it if it is still pending. -/
theorem Docket.fares_expire {i : CallerId} {id : MessageId} {timeout : Duration}
    (h : (w.park t (.expire i id timeout)).Docket) :
    Fares (some t, w.park t (.expire i id timeout)) (none, w.complete i id (.lapsed timeout)) := by
  have watch : (w.park t (.expire i id timeout)).watch? t = some (i, id, timeout) := by
    rw [watch?_park, if_pos rfl]
    rfl
  refine fares_complete (w := w) (fun j => rfl) rfl rfl (fun k other => ?_) rfl rfl (fun j => rfl)
    rfl (by simp [acceptances]) fun d hd => ?_
  · obtain ⟨p, hp, rfl, rfl⟩ := h.live t i id timeout watch
    rw [watch?_park, if_neg (other p (h.pending?_eq hp))]
  · cases hd
    exact ⟨t, rfl, by simp⟩

/-- Who has got its listener goes on without a call's end. -/
theorem fares_enrol {r : Registration} {u : Use} {hub : Hub} (free : w.tasks.get? t = none) :
    Fares (some t, w.park t (.register r.owner r.source r.sink r.listener (.use u)))
      ((w.onward t u).2.map fun _ => t,
        (({ w with hub := hub }.record (.attempted u.engine (.ok ()))).settleCell u.engine
          (.ok ())).proceed t (w.onward t u).1 (w.onward t u).2) := by
  let v := (({ w with hub := hub }.record (.attempted u.engine (.ok ()))).settleCell u.engine
    (.ok ())).recordAll (w.onward t u).1
  refine fares_quiet (v := v) rfl ?_ free rfl (account_congr (by simp [v])) (by simp [v])
    (by simp [v]) (fun i => ?_)
    ((acceptances_recordAll (w.onward_quiet t u)).trans (by simp [acceptances]))
  · cases goes : (w.onward t u).2 with
    | none => exact .inl rfl
    | some j' => exact .inr ⟨j', w.onward_watch? t u goes, rfl⟩
  · simp only [v, recordAll_pendingOf, settleCell_pendingOf]
    rfl

theorem fares_broadcast {l : LinkId} {m : Message} {after : AfterSend} (tidy : w.Tidy)
    (free : w.tasks.get? t = none) : Fares (some t, w.park t (.send l m after))
      (none, (w.broadcast m).recordAll (after.events t (.ok ()))) := by
  refine .quiet (by simp) (account_congr (by simp)) (fun i => pendingOf_congr (by simp) i)
    (fun k => ?_) ((acceptances_recordAll ?_).trans (by simp))
  · exact ((watch?_congr (by simp)).trans (watch?_broadcast tidy m k)).trans
      (watch?_park_none free rfl k).symm
  · cases after <;> simp [AfterSend.events, isEntry]

theorem fares_await {k : CallId} {held : Option CallerId} {call : Call}
    (free : w.tasks.get? t = none) (place : w.calls.get? k = some call) :
    Fares (some t, w.park t (.await k held))
      (none, { w with calls := w.calls.set k { call with waiter := some t } }.park t
        (.await k held)) := by
  refine fares_quiet rfl (.inr ⟨_, rfl, rfl⟩) free rfl (fun k' => ?_) rfl rfl (fun i => rfl) rfl
  simp only [account, Table.get?_set]
  split
  · rename_i hk
    rw [hk, place]
    rfl
  · rfl

theorem fares_call {v : World} {i : CallerId} {method : Address} {payload : Option Payload}
    {options : CallOptions} {accepted : Accepted} (tidy : w.Tidy) (lt : t < w.tasks.next)
    (free : w.tasks.get? t = none)
    (invoked : w.invoke i method payload options = (.ok accepted, v)) :
    Fares (some t, w.park t (.start (.call i method (.ok payload) options)))
      (some t, v.park t (.await accepted.call (some i))) := by
  rcases invoke_cases w i method payload options with
    ⟨e, he⟩ | ⟨e, he⟩ | ⟨c, m, caller, -, finish, vacant, he⟩
  · cases he.symm.trans invoked
  · cases he.symm.trans invoked
  · have left := invoke_free free lt i method payload options
    rw [invoked] at left
    cases he.symm.trans invoked
    refine fares_accept tidy caller finish vacant ⟨rfl, rfl, rfl, rfl, rfl⟩
      (watch?_park_none free rfl) rfl ⟨rfl, rfl, rfl, rfl⟩ (watch?_park_none left rfl) ?_
    simp [(Nat.ne_of_lt lt).symm]

theorem fares_callRefused {v : World} {i : CallerId} {method : Address}
    {payload : Option Payload} {options : CallOptions} {e : Failure}
    (free : w.tasks.get? t = none)
    (invoked : w.invoke i method payload options = (.error e, v)) :
    Fares (some t, w.park t (.start (.call i method (.ok payload) options)))
      (none, v.record (.resolved t (.error e))) := by
  rcases invoke_cases w i method payload options with ⟨e, he⟩ | ⟨e, he⟩ | ⟨c, m, -, -, -, -, he⟩
  · cases he.symm.trans invoked
    exact fares_quiet rfl (.inl rfl) free rfl (fun k => rfl) rfl rfl (fun i => rfl) rfl
  · cases he.symm.trans invoked
    exact fares_quiet rfl (.inl rfl) free rfl (fun k => rfl) rfl rfl (fun i => rfl) rfl
  · cases he.symm.trans invoked

end World

open World in
/-- **All that becomes of the calls** in a move. -/
theorem Move.fares {a b : Option TaskId × World} (hm : Move a b) (tidy : a.2.Tidy)
    (h : a.2.Docket) : Fares a b := by
  cases hm with
  | @remove w e p side seat unowned alive unheld => exact h.fares_remove tidy p side unheld
  | pass free passes => exact fares_pass free passes
  -- the task waits
  | doze free dozes =>
    have never := Job.watch?_of_call dozes.quiet
    exact fares_sleep free never never
  | rest free => exact fares_sleep free rfl rfl
  | @arm w t i id timeout free =>
    refine .quiet rfl (fun k => rfl) (fun j => rfl) (fun k => ?_) rfl
    exact (watch?_park w t (.expire i id timeout) k).trans
      (watch?_park w t (.deadline i id timeout) k).symm
  | wait free seat attempting =>
    exact fares_quiet rfl (.inr ⟨_, rfl, rfl⟩) free rfl (account_congr (by simp)) (by simp)
      (by simp) (by simp) (by simp)
  | await free place pending => exact fares_await free place
  -- a call ends if it is pending
  | expire free => exact h.fares_expire
  | @answered w t i c m id free caller alive answers =>
    refine fares_ended (v := w.record (.delivered (.engine (.caller i)) m)) _ rfl free rfl rfl
      rfl (fun _ => rfl) rfl rfl (by simp) ?_ rfl
    split <;> simp [isEntry]
  | @failRequest w t r i id m s free refusal =>
    exact fares_ended (v := (w.record (.attempted (.caller i) (.error s))).settleCell (.caller i)
      (.error s)) [] rfl free rfl (by simp) (by simp) (fun _ => by simp)
      (settleCell_pending? ..) (by simp [acceptances]) (by simp) (by simp) rfl
  | @refuse w t l m i id s free refusal =>
    exact fares_ended (v := w) [] rfl free rfl rfl rfl (fun _ => rfl) rfl rfl (by simp) (by simp)
      rfl
  -- the task goes on
  | @reply w t s v m a j es draft payload free server replies finish =>
    refine fares_quiet rfl (.inr ⟨_, rfl, rfl⟩) free (Job.watch?_of_call replies.quiet.1)
      (account_congr (by simp)) (by simp) (by simp) (by simp) ?_
    simp only [record_keeps, mint_keeps, acceptances]
    exact acceptances_recordAll replies.quiet.2
  | claim free seat vacant =>
    exact fares_quiet rfl (.inr ⟨_, rfl, rfl⟩) free rfl (account_congr (by simp)) (by simp)
      (by simp) (by simp) (by simp)
  | enrol free registration => exact fares_enrol free
  | addHandler free server vacant =>
    exact fares_quiet rfl (.inr ⟨_, rfl, rfl⟩) free rfl (fun k => rfl) rfl rfl (fun i => rfl) rfl
  | closeListening free seat opened registered =>
    exact fares_quiet rfl (.inr ⟨_, rfl, rfl⟩) free rfl (account_congr (by simp)) (by simp)
      (by simp) (by simp) (by simp)
  | post free posting linked onTopic finish =>
    exact fares_quiet rfl (.inr ⟨_, rfl, rfl⟩) free rfl (fun k => rfl) rfl rfl (fun i => rfl) rfl
  | call free invoked => exact fares_call tidy.unpark tidy.lt free invoked
  -- the task ends
  | @mute w t s v m j es draft payload e free server replies finish =>
    exact fares_quiet rfl (.inl rfl) free (Job.watch?_of_call replies.quiet.1)
      (account_congr (by simp)) (by simp) (by simp) (by simp)
      (acceptances_recordAll replies.quiet.2)
  | @failServe w t r sv method hd s free refusal =>
    exact fares_quiet rfl (.inl rfl) free rfl (account_congr (by simp)) (by simp) (by simp)
      (settleCell_pendingOf (w.record (.attempted (.server sv) (.error s))) (.server sv) (.error s))
      (by simp [acceptances])
  | enlist free registration =>
    exact fares_quiet rfl (.inl rfl) free rfl (fun k => rfl) rfl rfl (fun i => rfl) rfl
  | @unlist w t l source sink listener after hub free unregistration =>
    refine fares_quiet rfl (.inl rfl) free rfl (account_congr (by simp)) (by simp) (by simp)
      (fun i => pendingOf_congr (by simp) i) (acceptances_recordAll ?_)
    cases after <;> simp [AfterUnregister.events, isEntry]
  | broadcast free accepted => exact fares_broadcast tidy.unpark free
  | closeDeaf free seat opened unregistered =>
    exact fares_quiet rfl (.inl rfl) free rfl (account_congr (by simp)) (by simp) (by simp)
      (by simp) (by simp [acceptances])
  | postInvalid free posting linked onTopic finish =>
    exact fares_quiet rfl (.inl rfl) free rfl (fun k => rfl) rfl rfl (fun i => rfl) rfl
  | callRefused free invoked => exact fares_callRefused free invoked

open World in
theorem Outset.fares {w : World} {a : Act} {b : Option TaskId × World} (ho : Outset w a b)
    (tidy : w.Tidy) : Fares (none, w) b := by
  have quiet : b.2.calls = w.calls → b.2.events = w.events →
      (∀ i, b.2.pendingOf i = w.pendingOf i) → (∀ k, b.2.watch? k = w.watch? k) →
      Fares (none, w) b := fun calls events pending watches =>
    .quiet (by rw [calls]) (account_congr calls) pending watches (by rw [events])
  cases ho with
  | take t j ready task =>
    refine quiet rfl rfl (fun i => rfl) fun k => ?_
    rw [watch?_park]
    split
    · rename_i hk
      rw [hk, watch?_of_task task]
    · rename_i hk
      exact watch?_congr (by simp [hk])
  | discard t j ready task =>
    refine quiet rfl rfl (fun i => rfl) fun k => ?_
    by_cases hk : k = t
    · rw [hk, watch?_of_cancelled task, watch?_of_free (by simp)]
    · exact watch?_congr (by simp [hk])
  | enter o allowed =>
    refine quiet rfl rfl (fun i => rfl) (watch?_park_none ?_ rfl)
    simpa using tidy.tasks.next
  | spawn o allowed =>
    exact quiet rfl rfl (fun i => rfl) fun k => watch?_insert_none tidy rfl rfl
  | inbound l m =>
    exact quiet rfl rfl (fun i => rfl) fun k => watch?_insert_none tidy rfl rfl
  | addCaller l link reports linked =>
    refine quiet rfl rfl (fun i => ?_) fun k => rfl
    simp only [pendingOf, Table.get?_insert]
    split
    · rename_i hi
      rw [hi, tidy.callers.next]
      rfl
    · rfl
  | hold e owned =>
    exact quiet (by simp [World.hold]) (by simp [World.hold]) (by simp [World.hold])
      fun k => watch?_congr (by simp [World.hold])
  | drop e side owned =>
    exact quiet (by simp) (by simp) (by simp) fun k => watch?_congr (by simp)
  | invoke i method payload options owned =>
    rcases invoke_cases w i method payload options with
      ⟨e, he⟩ | ⟨e, he⟩ | ⟨c, m, caller, -, finish, vacant, he⟩ <;> rw [he]
    · exact .quiet rfl (fun k => rfl) (fun i => rfl) (fun k => rfl) rfl
    · exact .quiet rfl (fun k => rfl) (fun i => rfl) (fun k => rfl) rfl
    · exact fares_accept tidy caller finish vacant ⟨rfl, rfl, rfl, rfl, rfl⟩ (fun k => rfl) rfl
        ⟨rfl, rfl, rfl, rfl⟩ (fun k => rfl) rfl
  | fire due next =>
    exact quiet (by simp [World.fire]) (by simp [World.fire])
      (fun i => pendingOf_congr (by simp [World.fire]) i)
      fun k => watch?_congr (by simp [World.fire])
  | _ => exact quiet rfl rfl (fun i => rfl) fun k => rfl

namespace World

theorem Docket.move {a b : Option TaskId × World} (hm : Move a b) (tidy : a.2.Tidy)
    (h : a.2.Docket) : b.2.Docket := h.fare tidy (hm.fares tidy h)

/-- **The docket is kept** through every run. -/
theorem Docket.kept : Kept (fun _ _ => True) fun a => a.2.Docket :=
  ⟨fun tidy ho _ h => Docket.fare h tidy (ho.fares tidy), fun tidy hm h => h.move hm tidy⟩

end World

/-! ## Cancelled tasks -/

namespace World

variable {w : World}

theorem mem_wake (w : World) (t : TaskId) : t ∈ (w.wake t).ready := by
  unfold wake
  split
  · rename_i ready
    simpa using ready
  · simp

theorem mem_wake_of_mem {t k : TaskId} (h : k ∈ w.ready) : k ∈ (w.wake t).ready := by
  unfold wake
  split
  · exact h
  · exact List.mem_append_left _ h

/-- A task that the end of a call cancels becomes ready. -/
theorem complete_cancelled {i : CallerId} {id : MessageId} {cause : Cause} {k : TaskId} {x : Task}
    (task : (w.complete i id cause).tasks.get? k = some x) :
    w.tasks.get? k = some x ∨ k ∈ (w.complete i id cause).ready := by
  cases hp : (w.callers.get? i).bind (·.pending? id) with
  | none =>
    rw [complete_of_none hp] at task
    exact .inl task
  | some p =>
    rw [complete_of_some hp] at task ⊢
    simp only [resolve_keeps, cancel_get?, modifyCaller_keeps, record_keeps] at task
    split at task
    · rename_i hk
      obtain ⟨y, hy, rfl⟩ := Option.map_eq_some_iff.mp task
      right
      have woken : p.deadline ∈ (((w.record (.ended i id cause)).modifyCaller i
          (·.forget id)).cancel p.deadline).ready := by
        simp only [cancel, modifyCaller_keeps, record_keeps, ← hk, hy]
        exact mem_wake ..
      rw [hk]
      unfold resolve
      split
      · exact woken
      · dsimp only
        split
        · exact mem_wake_of_mem woken
        · exact woken
    · exact .inl task

def Clears (w : World) : Prop :=
  ∀ k x, w.tasks.get? k = some x → x.cancelled = true → k ∈ w.ready

end World

/-- A task that is in the table once a task has been put there is that task, or was there before. -/
theorem Table.task_of_set {tasks : Table Task} {t k : TaskId} {j : Job} {x : Task}
    (task : (tasks.set t ⟨j, false⟩).get? k = some x) :
    tasks.get? k = some x ∨ x.cancelled = false := by
  rw [get?_set] at task
  split at task
  · cases task
    exact .inr rfl
  · exact .inl task

theorem World.task_of_invoke {w : World} {i : CallerId} {method : Address}
    {payload : Option Payload} {options : CallOptions} {k : TaskId} {x : Task}
    (task : (w.invoke i method payload options).2.tasks.get? k = some x) :
    w.tasks.get? k = some x ∨ x.cancelled = false := by
  rcases invoke_cases w i method payload options with
    ⟨e, he⟩ | ⟨e, he⟩ | ⟨c, m, -, -, -, -, he⟩ <;> rw [he] at task
  · exact .inl task
  · exact .inl task
  · simp only [accept_keeps, Table.get?_insert, mint_keeps] at task
    split at task
    · cases task
      exact .inr rfl
    · split at task
      · cases task
        exact .inr rfl
      · exact .inl task

theorem World.task_of_park {w : World} {t k : TaskId} {j : Job} {x : Task}
    (free : w.tasks.get? t = none) (cancelled : x.cancelled = true)
    (task : w.tasks.get? k = some x ∨ x.cancelled = false) :
    (w.park t j).tasks.get? k = some x := by
  rcases task with task | alive
  · have other : k ≠ t := by
      rintro rfl
      rw [free] at task
      cases task
    simpa [other] using task
  · rw [alive] at cancelled
    cases cancelled

/-- A task that is cancelled as a call ends becomes ready. -/
theorem World.cancelled_of_complete {w v : World} {b : Option TaskId × World} {t k : TaskId}
    {j : Job} {x : Task} {i : CallerId} {id : MessageId} {cause : Cause}
    (free : w.tasks.get? t = none) (same : v.tasks = w.tasks)
    (tasks : b.2.tasks = (v.complete i id cause).tasks)
    (ready : b.2.ready = (v.complete i id cause).ready) (task : b.2.tasks.get? k = some x)
    (cancelled : x.cancelled = true) :
    (w.park t j).tasks.get? k = some x ∨ k ∈ b.2.ready := by
  rw [tasks] at task
  rw [ready]
  exact (complete_cancelled task).imp_left fun hx => task_of_park free cancelled (.inl (same ▸ hx))

open World in
/-- A task that is cancelled in a move becomes ready. -/
theorem Move.cancelled {a b : Option TaskId × World} (hm : Move a b) (tidy : a.2.Tidy) {k : TaskId}
    {x : Task} (task : b.2.tasks.get? k = some x) (cancelled : x.cancelled = true) :
    a.2.tasks.get? k = some x ∨ k ∈ b.2.ready := by
  cases hm with
  | @remove w e p side seat unowned alive unheld =>
    rcases remove_tasks w e p side with ⟨-, -, -, tasks⟩ | tasks <;> rw [tasks] at task
    · rw [Table.get?_insert] at task
      split at task
      · cases task
        cases cancelled
      · exact .inl task
    · exact .inl task
  | @pass w t j es next free passes =>
    refine .inl (task_of_park free cancelled ?_)
    cases next with
    | none => exact .inl (by simpa using task)
    | some j' => exact Table.task_of_set (by simpa using task)
  | @enrol w t r u hub free registration =>
    refine .inl (task_of_park free cancelled ?_)
    cases goes : (w.onward t u).2 with
    | none => exact .inl (by simpa [goes] using task)
    | some j' => exact Table.task_of_set (by simpa [goes] using task)
  | @expire w t i id timeout free =>
    exact cancelled_of_complete (v := w) free rfl rfl rfl task cancelled
  | @answered w t i c m id free caller alive answers =>
    exact cancelled_of_complete (v := w.record (.delivered (.engine (.caller i)) m)) free rfl
      (recordAll_tasks ..) (recordAll_ready ..) task cancelled
  | @failRequest w t r i id m s free refusal =>
    exact cancelled_of_complete (v := (w.record (.attempted (.caller i) (.error s))).settleCell
      (.caller i) (.error s)) free (by simp) rfl rfl task cancelled
  | @refuse w t l m i id s free refusal =>
    exact cancelled_of_complete (v := w) free rfl rfl rfl task cancelled
  | @broadcast w t l m after free accepted =>
    have task : (w.broadcast m).tasks.get? k = some x := by simpa using task
    refine .inl (task_of_park free cancelled ?_)
    exact (broadcast_task tidy.unpark.tasks task).imp_right fun ⟨_, _, _, _, hx⟩ => by rw [hx]
  | @call w v t i method payload options accepted free invoked =>
    have hv : v = (w.invoke i method payload options).2 := by rw [invoked]
    subst hv
    exact .inl (task_of_park free cancelled ((Table.task_of_set task).elim task_of_invoke .inr))
  | @callRefused w v t i method payload options e free invoked =>
    have hv : v = (w.invoke i method payload options).2 := by rw [invoked]
    subst hv
    exact .inl (task_of_park free cancelled (task_of_invoke task))
  | _ =>
    -- the running task is put back, or has ended
    refine .inl (task_of_park (by assumption) cancelled ?_)
    first
      | exact .inl (by simpa using task)
      | exact Table.task_of_set (by simpa using task)

end Switchboard
