import Switchboard.Proofs.Leads
import Switchboard.Proofs.Ledger

/-! # Who is woken

A task leaves the table to take its turn and comes back if it has to wait, so
what stands under a key is one task at all times, and `Move.lineage` says how it
goes on. It waits for a moment, for the outcome of a call, or for another
task's attempt to register a listener, and only what it waits for wakes it.
`Wakeful` says that timers, outcomes and deadlines concern tasks that are past
waiting for a listener. Main statements: `Move.joins` says who can join the queue of
ready tasks in a move, and `Move.queue` what this means for those that wait for a
listener.
-/

namespace Switchboard

/-- The job may come to wait for another task's attempt to register a listener. -/
def Job.mayWait : Job → Bool
  | .prepare _ => true
  | .resume _ => true
  | .start _ => true
  | _ => false

theorem Job.mayWait_of_call {j : Job} (h : j.call?.isSome = true) : j.mayWait = false := by
  cases j <;> simp_all [call?, mayWait]

theorem Leads.mayWait {w : World} {t : TaskId} {j j' : Job} (h : Leads w t j j')
    (never : j.mayWait = false) : j'.mayWait = false := by
  cases h with
  | wait u => cases never
  | addHandler s v method h server vacant => cases never
  | call i c method payload options m caller finish minted => cases never
  | _ => rfl

theorem Leads.call? {w : World} {t : TaskId} {j j' : Job} (h : Leads w t j j')
    (call : j.call?.isSome = true) : j'.call?.isSome = true := by
  cases h with
  | arm i id timeout => rfl
  | request j i c id m use caller listening => cases j <;> simp_all [Job.use?, Job.call?]
  | attempt j u p use seat => cases j <;> simp_all [Job.use?, Job.call?]
  | reply s v m a j es draft payload server replies finish => cases replies <;> cases call
  | _ => cases call

namespace World

variable {w v : World} {t k : TaskId} {x : Task}

theorem next_invoke (w : World) (i : CallerId) (method : Address) (payload : Option Payload)
    (options : CallOptions) : w.tasks.next ≤ (w.invoke i method payload options).2.tasks.next := by
  rcases invoke_cases w i method payload options with
    ⟨e, he⟩ | ⟨e, he⟩ | ⟨c, m, -, -, -, -, he⟩
  · simp [he]
  · simp [he]
  · simp only [he, accept_keeps, Table.insert_next, mint_keeps]
    omega

end World

open World in
theorem Move.next_le {a b : Option TaskId × World} (hm : Move a b) (tidy : a.2.Tidy) :
    a.2.tasks.next ≤ b.2.tasks.next := by
  cases hm with
  | @remove w e p side seat unowned alive unheld =>
    rcases remove_tasks w e p side with ⟨-, -, -, tasks⟩ | tasks <;>
      simp only [tasks, Table.insert_next]
    · exact Nat.le_succ _
    · exact Nat.le_refl _
  | @pass w t j es next free passes => cases next <;> simp
  | @enrol w t r u hub free registration => cases (w.onward t u).2 <;> simp
  | @broadcast w t l m after free accepted =>
    obtain ⟨-, next, -⟩ := broadcast_spawns w m (w.hub.recipients m) tidy.unpark.tasks
    rw [recordAll_tasks]
    exact next
  | @call w v t i method payload options accepted free invoked =>
    have next := next_invoke w i method payload options
    rw [invoked] at next
    exact next
  | @callRefused w v t i method payload options e free invoked =>
    have next := next_invoke w i method payload options
    rw [invoked] at next
    exact next
  | _ => simp

theorem Outset.next_le {w : World} {a : Act} {b : Option TaskId × World} (ho : Outset w a b) :
    w.tasks.next ≤ b.2.tasks.next := by
  cases ho with
  | enter o allowed => exact Nat.le_succ _
  | spawn o allowed => exact Nat.le_succ _
  | inbound l m => exact Nat.le_succ _
  | invoke i method payload options owned => exact World.next_invoke ..
  | fire due next => simp [World.fire]
  | hold e owned => simp [World.hold]
  | drop e side owned => simp
  | _ => exact Nat.le_refl _

namespace World

/-- The key was given out, and the job of the task under it, if there is one, has the property. -/
def KeepsTo (w : World) (F : Job → Prop) (k : TaskId) : Prop :=
  k < w.tasks.next ∧ ∀ x, w.tasks.get? k = some x → F x.job

variable {w v : World} {F G : Job → Prop} {k : TaskId}

theorem KeepsTo.mono (h : w.KeepsTo F k) (imp : ∀ j, F j → G j) : w.KeepsTo G k :=
  ⟨h.1, fun x hx => imp _ (h.2 x hx)⟩

theorem KeepsTo.of_task {x : Task} (tidy : w.Tidy) (task : w.tasks.get? k = some x) (hx : F x.job) :
    w.KeepsTo F k :=
  ⟨tidy.tasks.lt task, fun y hy => by rw [task] at hy; cases hy; exact hx⟩

theorem KeepsTo.move {a b : Option TaskId × World} (h : a.2.KeepsTo F k) (hm : Move a b)
    (tidy : a.2.Tidy)
    (leads : ∀ w t j j', Leads w t j j' → (∀ l m, j' ≠ .deliver l m) → F j → F j') :
    b.2.KeepsTo F k := by
  refine ⟨Nat.lt_of_lt_of_le h.1 (hm.next_le tidy), fun x task => ?_⟩
  rcases hm.lineage tidy task with ⟨y, hy, same⟩ | ⟨w, j, rfl, goes, other⟩ | ⟨new, -⟩
  · rw [same]
    exact h.2 y hy
  · exact leads w k j x.job goes other (h.2 ⟨j, false⟩ (by simp))
  · exact absurd h.1 (Nat.not_lt.mpr new)

theorem KeepsTo.outset {a : Act} {b : Option TaskId × World} (h : w.KeepsTo F k)
    (ho : Outset w a b) : b.2.KeepsTo F k := by
  refine ⟨Nat.lt_of_lt_of_le h.1 ho.next_le, fun x task => ?_⟩
  rcases ho.lineage task with old | ⟨new, -⟩
  · exact h.2 x old
  · exact absurd h.1 (Nat.not_lt.mpr new)

/-! ## What may be woken -/

/-- A task that a timer, the outcome of a call or the end of its deadline wakes does not wait for
another task's attempt to register a listener. -/
structure Wakeful (w : World) : Prop where
  timed : ∀ τ ∈ w.timers, w.KeepsTo (·.mayWait = false) τ.task
  awaited : ∀ c call k, w.calls.get? c = some call → call.waiter = some k →
    w.KeepsTo (·.mayWait = false) k
  due : ∀ i, ∀ p ∈ w.pendingOf i, w.KeepsTo (·.call?.isSome = true) p.deadline

theorem cancel_timers (w : World) (t : TaskId) {τ : Timer} (h : τ ∈ (w.cancel t).timers) :
    τ ∈ w.timers := by
  unfold cancel at h
  split at h
  · exact h
  · simp only [wake_keeps, List.mem_filter] at h
    exact h.1

theorem complete_timers {i : CallerId} {id : MessageId} {cause : Cause} {τ : Timer}
    (h : τ ∈ (w.complete i id cause).timers) : τ ∈ w.timers := by
  cases hp : (w.callers.get? i).bind (·.pending? id) with
  | none => simpa [complete_of_none hp] using h
  | some p =>
    simp only [complete_of_some hp, resolve_keeps] at h
    simpa using cancel_timers _ _ h

theorem invoke_timers (w : World) (i : CallerId) (method : Address) (payload : Option Payload)
    (options : CallOptions) : (w.invoke i method payload options).2.timers = w.timers := by
  rcases invoke_cases w i method payload options with
    ⟨e, he⟩ | ⟨e, he⟩ | ⟨c, m, -, -, -, -, he⟩ <;> rw [he] <;> simp

theorem resolve_waiter {c j : CallId} {o : Except Failure Payload} {call : Call} {k : TaskId}
    (h : (w.resolve c o).calls.get? j = some call) (waits : call.waiter = some k) :
    ∃ call, w.calls.get? j = some call ∧ call.waiter = some k := by
  rw [resolve_get?] at h
  split at h
  · obtain ⟨call, -, rfl⟩ := Option.map_eq_some_iff.mp h
    cases waits
  · exact ⟨call, h, waits⟩

theorem complete_waiter {i : CallerId} {id : MessageId} {cause : Cause} {j : CallId} {call : Call}
    {k : TaskId} (h : (w.complete i id cause).calls.get? j = some call)
    (waits : call.waiter = some k) : ∃ call, w.calls.get? j = some call ∧ call.waiter = some k := by
  cases hp : (w.callers.get? i).bind (·.pending? id) with
  | none => exact ⟨call, by simpa [complete_of_none hp] using h, waits⟩
  | some p =>
    rw [complete_of_some hp] at h
    simpa using resolve_waiter h waits

theorem resolveAll_waiter {ps : List PendingCall} {o : Except Failure Payload} {j : CallId}
    {call : Call} {k : TaskId}
    (h : (ps.foldl (fun w p => w.resolve p.call o) w).calls.get? j = some call)
    (waits : call.waiter = some k) : ∃ call, w.calls.get? j = some call ∧ call.waiter = some k := by
  induction ps generalizing w with
  | nil => exact ⟨call, h, waits⟩
  | cons p ps ih =>
    obtain ⟨call', h', waits'⟩ := ih h
    exact resolve_waiter h' waits'

theorem remove_waiter {e : EngineId} {p : Seat} {side : Side} {j : CallId} {call : Call}
    {k : TaskId} (h : (w.remove e p side).calls.get? j = some call) (waits : call.waiter = some k) :
    ∃ call, w.calls.get? j = some call ∧ call.waiter = some k := by
  cases e with
  | server s =>
    have calls : (w.remove (.server s) p side).calls = w.calls := remove_idle p side (by simp)
    exact ⟨call, calls ▸ h, waits⟩
  | caller i =>
    have calls : (w.remove (.caller i) p side).calls =
        ((w.modifySeat (fun p => { p with gone := true }) (.caller i)).abandon i).calls := by
      unfold remove
      dsimp only
      split <;> simp
    rw [calls] at h
    unfold abandon at h
    split at h
    · exact ⟨call, by simpa using h, waits⟩
    · simpa using resolveAll_waiter h waits

theorem invoke_waiter {i : CallerId} {method : Address} {payload : Option Payload}
    {options : CallOptions} {j : CallId} {call : Call} {k : TaskId}
    (h : (w.invoke i method payload options).2.calls.get? j = some call)
    (waits : call.waiter = some k) : ∃ call, w.calls.get? j = some call ∧ call.waiter = some k := by
  rcases invoke_cases w i method payload options with
    ⟨e, he⟩ | ⟨e, he⟩ | ⟨c, m, -, -, -, -, he⟩ <;> rw [he] at h
  · exact ⟨call, h, waits⟩
  · exact ⟨call, h, waits⟩
  · simp only [accept_keeps, mint_keeps, Table.get?_insert] at h
    split at h
    · cases h
      cases waits
    · exact ⟨call, h, waits⟩

theorem pendingOf_congr (callers : v.callers = w.callers) (i : CallerId) :
    v.pendingOf i = w.pendingOf i := by
  rw [pendingOf, pendingOf, callers]

@[simp] theorem record_pendingOf (w : World) (e : Event) (i : CallerId) :
    (w.record e).pendingOf i = w.pendingOf i := rfl

@[simp] theorem mint_pendingOf (w : World) (i : CallerId) :
    w.mint.2.pendingOf i = w.pendingOf i := rfl

@[simp] theorem recordAll_pendingOf (w : World) (es : List Event) (i : CallerId) :
    (w.recordAll es).pendingOf i = w.pendingOf i := pendingOf_congr (by simp) i

@[simp] theorem park_pendingOf (w : World) (t : TaskId) (j : Job) (i : CallerId) :
    (w.park t j).pendingOf i = w.pendingOf i := rfl

@[simp] theorem proceed_pendingOf (w : World) (t : TaskId) (es : List Event) (next : Option Job)
    (i : CallerId) : (w.proceed t es next).pendingOf i = w.pendingOf i :=
  pendingOf_congr (by simp) i

@[simp] theorem modifySeat_pendingOf (w : World) (f : Seat → Seat) (e : EngineId) (i : CallerId) :
    (w.modifySeat f e).pendingOf i = w.pendingOf i := by
  simp only [pendingOf, modifySeat_callers]
  split
  · cases w.callers.get? i <;> rfl
  · rfl

@[simp] theorem settleCell_pendingOf (w : World) (e : EngineId) (r : Except Status Unit)
    (i : CallerId) : (w.settleCell e r).pendingOf i = w.pendingOf i := by
  rcases settleCell_eq w e r with he | ⟨cell, ts, he⟩
  · rw [he]
  · rw [he, ← modifySeat_pendingOf w (fun p => { p with cell := cell }) e i]
    exact pendingOf_congr (by simp) i

theorem complete_pendingOf {i j : CallerId} {id : MessageId} {cause : Cause} {p : PendingCall}
    (h : p ∈ (w.complete i id cause).pendingOf j) : p ∈ w.pendingOf j := by
  cases hp : (w.callers.get? i).bind (·.pending? id) with
  | none => simpa [complete_of_none hp, pendingOf] using h
  | some q => exact (Ledger.mem_pendingOf_complete hp h).1

theorem remove_pendingOf {e : EngineId} {q : Seat} {side : Side} {i : CallerId} {p : PendingCall}
    (h : p ∈ (w.remove e q side).pendingOf i) : p ∈ w.pendingOf i := by
  rw [pendingOf, remove_callers] at h
  split at h
  · cases hc : w.callers.get? i <;> simp [hc] at h
  · exact h

/-- The deadline of a call that is made is a task of its own. -/
theorem invoke_pendingOf {i j : CallerId} {method : Address} {payload : Option Payload}
    {options : CallOptions} {p : PendingCall}
    (h : p ∈ (w.invoke i method payload options).2.pendingOf j) :
    p ∈ w.pendingOf j ∨ p.deadline = w.tasks.next ∧ ∃ id,
      (w.invoke i method payload options).2.tasks.get? w.tasks.next =
        some ⟨.deadline i id options.timeout, false⟩ := by
  rcases invoke_cases w i method payload options with
    ⟨e, he⟩ | ⟨e, he⟩ | ⟨c, m, caller, -, -, -, he⟩ <;> rw [he] at h ⊢
  · exact .inl h
  · exact .inl h
  · rcases Ledger.mem_pendingOf_accept caller h with ⟨-, rfl⟩ | old
    · exact .inr ⟨rfl, w.mint.1, by simp⟩
    · exact .inl old

end World

open World in
/-- A timer was there before the move, or is that of the running task. -/
theorem Move.timers {a b : Option TaskId × World} (hm : Move a b) {τ : Timer}
    (armed : τ ∈ b.2.timers) : τ ∈ a.2.timers ∨
      a.2.now ≤ τ.due ∧ ∃ x, b.2.tasks.get? τ.task = some x ∧ x.job.mayWait = false := by
  have slept : ∀ {w : World} {t : TaskId} {ms : Nat} {j j' : Job}, a = (some t, w.park t j') →
      b = (none, w.sleep t ms j) → j.mayWait = false → τ ∈ a.2.timers ∨
        a.2.now ≤ τ.due ∧ ∃ x, b.2.tasks.get? τ.task = some x ∧ x.job.mayWait = false := by
    intro w t ms j j' ha hb never
    subst ha hb
    simp only [sleep, List.mem_append, List.mem_singleton] at armed
    rcases armed with old | rfl
    · exact .inl old
    · exact .inr ⟨Nat.le_add_right .., ⟨j, false⟩, by simp, never⟩
  cases hm with
  | @doze w t j ms free dozes => exact slept rfl rfl (by cases dozes <;> rfl)
  | rest free => exact slept rfl rfl rfl
  | arm free => exact slept rfl rfl rfl
  | @expire w t i id timeout free =>
    have old : τ ∈ w.timers := complete_timers armed
    exact .inl old
  | answered free caller alive answers =>
    rw [recordAll_timers] at armed
    have old := complete_timers armed
    exact .inl (by simpa using old)
  | failRequest free refusal => exact .inl (by simpa using complete_timers armed)
  | @refuse w t l m i id s free refusal =>
    have old : τ ∈ w.timers := complete_timers armed
    exact .inl old
  | @call w v t i method payload options accepted free invoked =>
    have timers := invoke_timers w i method payload options
    rw [invoked] at timers
    exact .inl (timers ▸ armed)
  | @callRefused w v t i method payload options e free invoked =>
    have timers := invoke_timers w i method payload options
    rw [invoked] at timers
    exact .inl (timers ▸ armed)
  | _ => exact .inl (by simpa using armed)

open World in
theorem Move.waiter {a b : Option TaskId × World} (hm : Move a b) {c : CallId} {call : Call}
    {k : TaskId} (place : b.2.calls.get? c = some call) (waits : call.waiter = some k) :
    (∃ call, a.2.calls.get? c = some call ∧ call.waiter = some k) ∨
      ∃ held, b.2.tasks.get? k = some ⟨.await c held, false⟩ := by
  cases hm with
  | remove seat unowned alive unheld => exact .inl (remove_waiter place waits)
  | expire free =>
    have old := complete_waiter place waits
    exact .inl old
  | answered free caller alive answers =>
    simp only [recordAll_keeps] at place
    have old := complete_waiter place waits
    exact .inl (by simpa using old)
  | failRequest free refusal => exact .inl (by simpa using complete_waiter place waits)
  | refuse free refusal =>
    have old := complete_waiter place waits
    exact .inl old
  | @await w t c' held call' free place' pending =>
    simp only [park_keeps, Table.get?_set] at place
    split at place
    · rename_i hc
      cases place
      cases waits
      exact .inr ⟨held, by simp [hc]⟩
    · exact .inl ⟨call, place, waits⟩
  | @call w v t i method payload options accepted free invoked =>
    have hv : v = (w.invoke i method payload options).2 := by rw [invoked]
    subst hv
    have old := invoke_waiter place waits
    exact .inl old
  | @callRefused w v t i method payload options e free invoked =>
    have hv : v = (w.invoke i method payload options).2 := by rw [invoked]
    subst hv
    have old := invoke_waiter place waits
    exact .inl old
  | _ => exact .inl ⟨call, by simpa using place, waits⟩

open World in
theorem Outset.waiter {w : World} {a : Act} {b : Option TaskId × World} (ho : Outset w a b)
    {c : CallId} {call : Call} {k : TaskId} (place : b.2.calls.get? c = some call)
    (waits : call.waiter = some k) : ∃ call, w.calls.get? c = some call ∧ call.waiter = some k := by
  cases ho with
  | invoke i method payload options owned => exact invoke_waiter place waits
  | fire due next => exact ⟨call, by simpa [World.fire] using place, waits⟩
  | hold e owned => exact ⟨call, by simpa [World.hold] using place, waits⟩
  | drop e side owned => exact ⟨call, by simpa using place, waits⟩
  | _ => exact ⟨call, place, waits⟩

open World in
theorem Move.pending {a b : Option TaskId × World} (hm : Move a b) (tidy : a.2.Tidy) {i : CallerId}
    {p : PendingCall} (pending : p ∈ b.2.pendingOf i) :
    p ∈ a.2.pendingOf i ∨ ∃ x, b.2.tasks.get? p.deadline = some x ∧ x.job.call?.isSome = true := by
  cases hm with
  | remove seat unowned alive unheld => exact .inl (remove_pendingOf pending)
  | expire free =>
    have old := complete_pendingOf pending
    exact .inl old
  | answered free caller alive answers =>
    rw [recordAll_pendingOf] at pending
    have old := complete_pendingOf pending
    exact .inl old
  | @enrol w t r u hub free registration =>
    rw [proceed_pendingOf, settleCell_pendingOf] at pending
    exact .inl pending
  | failRequest free refusal => exact .inl (by simpa using complete_pendingOf pending)
  | @failServe w t r sv method h s free refusal =>
    have old : p ∈ ((w.record (.attempted (.server sv) (.error s))).settleCell (.server sv)
      (.error s)).pendingOf i := pending
    exact .inl (by simpa using old)
  | refuse free refusal =>
    have old := complete_pendingOf pending
    exact .inl old
  | @call w v t j method payload options accepted free invoked =>
    have hv : v = (w.invoke j method payload options).2 := by rw [invoked]
    subst hv
    rcases invoke_pendingOf pending with old | ⟨hd, id, task⟩
    · exact .inl old
    · have other : w.tasks.next ≠ t := (Nat.ne_of_lt tidy.lt).symm
      exact .inr ⟨_, by simpa [hd, other] using task, rfl⟩
  | @callRefused w v t j method payload options e free invoked =>
    have hv : v = (w.invoke j method payload options).2 := by rw [invoked]
    subst hv
    rcases invoke_pendingOf pending with old | ⟨hd, id, task⟩
    · exact .inl old
    · exact .inr ⟨_, by rw [hd]; exact task, rfl⟩
  | _ =>
    left
    simp only [park_pendingOf, record_pendingOf, recordAll_pendingOf, mint_pendingOf,
      proceed_pendingOf, modifySeat_pendingOf,
      pendingOf_congr (broadcast_callers _ _)] at pending ⊢
    exact pending

namespace World

variable {w v : World}

/-- Every move keeps it that only what a task waits for wakes it. -/
theorem Wakeful.move {a b : Option TaskId × World} (hm : Move a b) (tidy : a.2.Tidy)
    (h : a.2.Wakeful) : b.2.Wakeful := by
  have tidy' := tidy.move hm
  have waits : ∀ w t j j', Leads w t j j' → (∀ l m, j' ≠ .deliver l m) → j.mayWait = false →
      j'.mayWait = false :=
    fun _ _ _ _ leads _ => leads.mayWait
  refine ⟨fun τ armed => ?_, fun c call k place waiter => ?_, fun i p pending => ?_⟩
  · rcases hm.timers armed with old | ⟨-, x, task, never⟩
    · exact (h.timed τ old).move hm tidy waits
    · exact .of_task tidy' task never
  · rcases hm.waiter place waiter with ⟨call', old, waiter'⟩ | ⟨held, task⟩
    · exact (h.awaited c call' k old waiter').move hm tidy waits
    · exact .of_task tidy' task rfl
  · rcases hm.pending tidy pending with old | ⟨x, task, call⟩
    · exact (h.due i p old).move hm tidy fun _ _ _ _ leads _ => leads.call?
    · exact .of_task tidy' task call

theorem Wakeful.outset {a : Act} {b : Option TaskId × World} (ho : Outset w a b) (tidy : w.Tidy)
    (h : w.Wakeful) : b.2.Wakeful := by
  have quiet : (∀ τ ∈ b.2.timers, τ ∈ w.timers) →
      (∀ i, ∀ p ∈ b.2.pendingOf i, p ∈ w.pendingOf i ∨
        ∃ x, b.2.tasks.get? p.deadline = some x ∧ x.job.call?.isSome = true) → b.2.Wakeful := by
    intro timers pending
    refine ⟨fun τ armed => (h.timed τ (timers τ armed)).outset ho, fun c call k place waiter => ?_,
      fun i p hp => ?_⟩
    · obtain ⟨call', old, waiter'⟩ := ho.waiter place waiter
      exact (h.awaited c call' k old waiter').outset ho
    · rcases pending i p hp with old | ⟨x, task, call⟩
      · exact (h.due i p old).outset ho
      · exact .of_task (tidy.outset ho) task call
  have same : b.2.timers = w.timers → (∀ i, b.2.pendingOf i = w.pendingOf i) → b.2.Wakeful :=
    fun timers pending => quiet (fun τ hτ => timers ▸ hτ) fun i p hp => .inl (pending i ▸ hp)
  cases ho with
  | addCaller l link reports linked =>
    refine same rfl fun i => ?_
    simp only [pendingOf, Table.get?_insert]
    split
    · rename_i hi
      rw [hi, tidy.callers.next]
      rfl
    · rfl
  | hold e owned => exact same (by simp [hold]) fun i => by simp [hold]
  | drop e side owned => exact same (by simp) fun i => by simp
  | invoke i method payload options owned =>
    refine quiet (fun τ hτ => invoke_timers .. ▸ hτ) fun j p hp => ?_
    refine (invoke_pendingOf hp).imp_right fun hx => ?_
    obtain ⟨hd, id, task⟩ := hx
    exact ⟨_, by rw [hd]; exact task, rfl⟩
  | fire due next =>
    refine quiet (fun τ hτ => ?_) fun i p hp => .inl ?_
    · simp only [fire, wakeAll_keeps, List.mem_filter] at hτ
      exact hτ.1
    · simpa [fire, pendingOf] using hp
  | _ => exact same rfl fun _ => rfl

theorem Wakeful.new (h : w.IsNew) : w.Wakeful := by
  obtain ⟨wall, ids, rfl⟩ := h
  refine ⟨?_, ?_, ?_⟩ <;> simp [pendingOf, Table.get?]

theorem Wakeful.kept : Kept (fun _ _ => True) fun a => a.2.Wakeful :=
  ⟨fun tidy ho _ h => h.outset ho tidy, fun tidy hm h => h.move hm tidy⟩

end World

/-! ## The queue -/

/-- The second queue comes from the first one by tasks that join it at the end, each of which has
the property and is not in the queue yet. -/
inductive Joins (S : TaskId → Prop) (q : List TaskId) : List TaskId → Prop
  | refl : Joins S q q
  | add {q' : List TaskId} (before : Joins S q q') (k : TaskId) (joins : S k) (new : k ∉ q') :
    Joins S q (q' ++ [k])

namespace Joins

variable {S S' : TaskId → Prop} {p q r : List TaskId} {k : TaskId}

theorem of_eq (h : q = p) : Joins S p q := h ▸ .refl

theorem trans (h : Joins S p q) (h' : Joins S q r) : Joins S p r := by
  induction h' with
  | refl => exact h
  | add _ k joins new ih => exact .add ih k joins new

theorem mono (h : Joins S p q) (imp : ∀ k, S k → S' k) : Joins S' p q := by
  induction h with
  | refl => exact .refl
  | add _ k joins new ih => exact .add ih k (imp k joins) new

theorem mem (h : Joins S p q) (hk : k ∈ q) : k ∈ p ∨ S k := by
  induction h with
  | refl => exact .inl hk
  | add _ k' joins new ih =>
    rcases List.mem_append.mp hk with hk | hk
    · exact ih hk
    · exact .inr (List.mem_singleton.mp hk ▸ joins)

theorem keeps (h : Joins S p q) (hk : k ∈ p) : k ∈ q := by
  induction h with
  | refl => exact hk
  | add _ k' joins new ih => exact List.mem_append_left _ ih

theorem exists_append (h : Joins S p q) : ∃ ks, q = p ++ ks ∧ ∀ k ∈ ks, S k ∧ k ∉ p := by
  induction h with
  | refl => exact ⟨[], by simp⟩
  | add _ k joins new ih =>
    obtain ⟨ks, rfl, joined⟩ := ih
    refine ⟨ks ++ [k], by simp, fun k' hk' => ?_⟩
    rcases List.mem_append.mp hk' with hk' | hk'
    · exact joined k' hk'
    · obtain rfl := List.mem_singleton.mp hk'
      exact ⟨joins, fun old => new (List.mem_append_left _ old)⟩

theorem nodup (h : Joins S p q) (hp : p.Nodup) : q.Nodup := by
  induction h with
  | refl => exact hp
  | add _ k joins new ih =>
    refine List.nodup_append.mpr ⟨ih, by simp, fun x hx y hy he => new ?_⟩
    rw [← List.mem_singleton.mp hy, ← he]
    exact hx

end Joins

namespace World

variable {w v : World} {S : TaskId → Prop} {t k : TaskId}

theorem joins_wake {q : List TaskId} (hq : w.ready = q) (hS : S t) :
    Joins S q (w.wake t).ready := by
  subst hq
  unfold wake
  split
  · exact .refl
  · rename_i new
    exact .add .refl t hS (by simpa using new)

theorem joins_wakeAll (w : World) {ts : List TaskId} (hS : ∀ t ∈ ts, S t) :
    Joins S w.ready (w.wakeAll ts).ready := by
  induction ts generalizing w with
  | nil => exact .refl
  | cons t ts ih =>
    exact (joins_wake rfl (hS t List.mem_cons_self)).trans
      (ih (w.wake t) fun k hk => hS k (List.mem_cons_of_mem _ hk))

theorem joins_cancel (w : World) (hS : S t) : Joins S w.ready (w.cancel t).ready := by
  unfold cancel
  split
  · exact .refl
  · exact joins_wake rfl hS

theorem joins_resolve (w : World) (c : CallId) (o : Except Failure Payload)
    (hS : ∀ call k, w.calls.get? c = some call → call.waiter = some k → S k) :
    Joins S w.ready (w.resolve c o).ready := by
  unfold resolve
  split
  · exact .refl
  · rename_i call place
    dsimp only
    split
    · rename_i k waits
      exact joins_wake rfl (hS call k place waits)
    · exact .refl

theorem joins_complete (w : World) (i : CallerId) (id : MessageId) (cause : Cause)
    (due : ∀ p, (w.callers.get? i).bind (·.pending? id) = some p → S p.deadline)
    (waits : ∀ c call k, w.calls.get? c = some call → call.waiter = some k → S k) :
    Joins S w.ready (w.complete i id cause).ready := by
  cases hp : (w.callers.get? i).bind (·.pending? id) with
  | none => exact .of_eq (by simp [complete_of_none hp])
  | some p =>
    rw [complete_of_some hp]
    refine (joins_cancel ((w.record (.ended i id cause)).modifyCaller i (·.forget id))
      (due p hp)).trans (joins_resolve _ _ _ fun call k place => ?_)
    exact waits _ call k (by simpa using place)

theorem complete_cancels {i : CallerId} {id : MessageId} {p : PendingCall}
    (hp : (w.callers.get? i).bind (·.pending? id) = some p) (cause : Cause) {x : Task}
    (task : (w.complete i id cause).tasks.get? p.deadline = some x) : x.cancelled = true := by
  rw [complete_of_some hp] at task
  simp only [resolve_keeps, cancel_get?, if_true] at task
  obtain ⟨y, -, rfl⟩ := Option.map_eq_some_iff.mp task
  rfl

theorem joins_resolveAll (w : World) (ps : List PendingCall) (o : Except Failure Payload)
    (waits : ∀ c call k, w.calls.get? c = some call → call.waiter = some k → S k) :
    Joins S w.ready (ps.foldl (fun w p => w.resolve p.call o) w).ready := by
  induction ps generalizing w with
  | nil => exact .refl
  | cons p ps ih =>
    refine (joins_resolve w p.call o fun call k => waits _ call k).trans (ih _ ?_)
    intro c call k place waiter
    obtain ⟨call', place', waiter'⟩ := resolve_waiter place waiter
    exact waits c call' k place' waiter'

theorem joins_spawn (w : World) (j : Job) (bounded : ∀ k ∈ w.ready, k < w.tasks.next)
    (hS : S w.tasks.next) : Joins S w.ready (w.spawn j).2.ready :=
  .add .refl _ hS fun h => Nat.lt_irrefl _ (bounded _ h)

theorem bounded_spawn {j : Job} (bounded : ∀ k ∈ w.ready, k < w.tasks.next) :
    ∀ k ∈ (w.spawn j).2.ready, k < (w.spawn j).2.tasks.next := by
  intro k hk
  rcases List.mem_append.mp hk with hk | hk
  · exact Nat.lt_succ_of_lt (bounded k hk)
  · rw [List.mem_singleton.mp hk]
    exact Nat.lt_succ_self _

theorem joins_abandon (w : World) (i : CallerId)
    (waits : ∀ c call k, w.calls.get? c = some call → call.waiter = some k → S k) :
    Joins S w.ready (w.abandon i).ready := by
  unfold abandon
  split
  · exact .refl
  · exact joins_resolveAll (w.modifyCaller i _) _ _ waits

theorem joins_remove (w : World) (e : EngineId) (p : Seat) (side : Side)
    (bounded : ∀ k ∈ w.ready, k < w.tasks.next)
    (waits : ∀ c call k, w.calls.get? c = some call → call.waiter = some k →
      S k ∧ k < w.tasks.next)
    (hS : (!p.closed && p.cell == .registered && side == .inside) = true → S w.tasks.next) :
    Joins S w.ready (w.remove e p side).ready := by
  have withdrawn : ∀ v : World, v.tasks = w.tasks →
      Joins (fun k => S k ∧ k < w.tasks.next) w.ready v.ready →
      Joins S w.ready
        (if !p.closed && p.cell == .registered && side == .inside then
          (v.spawn (.withdraw p.link p.sink e)).2
        else v).ready := by
    intro v tasks joins
    have joins' : Joins S w.ready v.ready := joins.mono fun k hk => hk.1
    split
    · rename_i withdraws
      refine joins'.trans (joins_spawn v _ (fun k hk => ?_) (tasks ▸ hS withdraws))
      rw [tasks]
      exact (joins.mem hk).elim (bounded k) (·.2)
    · exact joins'
  unfold remove
  cases e with
  | server s => exact withdrawn _ (by simp) (.of_eq (by simp))
  | caller i =>
    refine withdrawn _ (by simp) ?_
    have joins := joins_abandon (S := fun k => S k ∧ k < w.tasks.next)
      (w.modifySeat (fun p => { p with gone := true }) (.caller i)) i
      (fun c call k place waiter => waits c call k (by simpa using place) waiter)
    simpa using joins

theorem next_spawns (w : World) (m : Message) (ls : List Listener) :
    w.tasks.next ≤ (ls.foldl (fun w l => (w.spawn (.deliver l m)).2) w).tasks.next := by
  induction ls generalizing w with
  | nil => exact Nat.le_refl _
  | cons l ls ih => exact Nat.le_of_succ_le (ih (w.spawn (.deliver l m)).2)

theorem joins_broadcast (w : World) (m : Message) (bounded : ∀ k ∈ w.ready, k < w.tasks.next)
    (hS : ∀ k, w.tasks.next ≤ k → k < (w.broadcast m).tasks.next → S k) :
    Joins S w.ready (w.broadcast m).ready := by
  unfold broadcast at hS ⊢
  generalize w.hub.recipients m = ls at hS ⊢
  induction ls generalizing w with
  | nil => exact .refl
  | cons l ls ih =>
    have first : S w.tasks.next := hS _ (Nat.le_refl _) (next_spawns (w.spawn _).2 m ls)
    exact (joins_spawn w (.deliver l m) bounded first).trans
      (ih _ (bounded_spawn bounded) fun k hk => hS k (Nat.le_of_succ_le hk))

theorem joins_invoke (w : World) (i : CallerId) (method : Address) (payload : Option Payload)
    (options : CallOptions) (bounded : ∀ k ∈ w.ready, k < w.tasks.next)
    (hS : ∀ k, w.tasks.next ≤ k →
      k < (w.invoke i method payload options).2.tasks.next → S k) :
    Joins S w.ready (w.invoke i method payload options).2.ready := by
  rcases invoke_cases w i method payload options with
    ⟨e, he⟩ | ⟨e, he⟩ | ⟨c, m, -, -, -, -, he⟩ <;> rw [he] at hS ⊢
  · exact .refl
  · exact .refl
  · simp only [accept_keeps, mint_keeps, Table.insert_next] at hS
    -- the task of the deadline joins first, then that of the request
    have first := joins_spawn (S := S) w (.deadline i w.mint.1 options.timeout) bounded
      (hS _ (Nat.le_refl _) (by omega))
    have second := joins_spawn (S := S) (w.spawn (.deadline i w.mint.1 options.timeout)).2
      (.prepare (.request i w.mint.1 m)) (bounded_spawn bounded)
      (hS _ (Nat.le_succ _) (Nat.lt_succ_self _))
    exact first.trans second

/-- After a success everyone who waits for the listener is woken, else the first of them. -/
theorem joins_settleCell (w : World) (e : EngineId) (r : Except Status Unit)
    (hS : ∀ ws, w.cell? e = some (.attempting ws) → ∀ k ∈ ws,
      ws.head? = some k ∧ (w.settleCell e r).cell? e = some (.attempting ws.tail) ∨
        (w.settleCell e r).cell? e = some .registered → S k) :
    Joins S w.ready (w.settleCell e r).ready := by
  have becomes : ∀ cell cell', w.cell? e = some cell →
      (w.modifySeat (fun p => { p with cell := cell' }) e).cell? e = some cell' := by
    intro cell cell' h
    obtain ⟨p, hp, -⟩ := Option.map_eq_some_iff.mp h
    simp [cell?, hp]
  generalize hv : w.settleCell e r = v at hS ⊢
  unfold settleCell at hv
  split at hv <;> subst hv
  · rename_i ws cell
    have registered : ((w.modifySeat (fun p => { p with cell := .registered }) e).wakeAll ws).cell?
        e = some .registered := by simpa [cell?] using becomes _ .registered cell
    simpa using joins_wakeAll (w.modifySeat (fun p => { p with cell := .registered }) e)
      fun k hk => hS ws cell k hk (.inr registered)
  · exact .of_eq (by simp)
  · rename_i t rest s cell
    have next : ((w.modifySeat (fun p => { p with cell := .attempting rest }) e).wake t).cell? e =
        some (.attempting rest) := by simpa [cell?] using becomes _ (.attempting rest) cell
    exact joins_wake (by simp) (hS _ cell t List.mem_cons_self (.inl ⟨rfl, next⟩))
  · exact .refl

/-- The running task comes to the end of the attempt that the other task waits for: this one is
the first that waits and takes its turn, or the listener is registered. -/
def Awaits (a b : Option TaskId × World) (k : TaskId) : Prop :=
  ∃ (w : World) (t : TaskId) (r : Registration) (u : Use) (ws : List TaskId),
    a = (some t, w.park t (.register r.owner r.source r.sink r.listener (.use u))) ∧
      w.cell? u.engine = some (.attempting ws) ∧ k ∈ ws ∧
      (ws.head? = some k ∧ b.2.cell? u.engine = some (.attempting ws.tail) ∨
        b.2.cell? u.engine = some .registered)

/-- In a move a task becomes ready that is new, or does not wait for a listener, or waits for the
very attempt that has come to its end. -/
def MayJoin (a b : Option TaskId × World) (k : TaskId) : Prop :=
  (a.2.tasks.next ≤ k ∧ k < b.2.tasks.next) ∨ a.2.KeepsTo (·.mayWait = false) k ∨ Awaits a b k

end World

open World in
/-- **Who joins the queue** in a move: new tasks, the deadline of a pending call, which is cancelled
then, the task that waits for a call's outcome, and those that wait for the attempt that has just
come to its end. -/
theorem Move.joins {a b : Option TaskId × World} (hm : Move a b) {S : TaskId → Prop}
    (bounded : ∀ k ∈ a.2.ready, k < a.2.tasks.next)
    (new : ∀ k, a.2.tasks.next ≤ k → k < b.2.tasks.next → S k)
    (due : ∀ i, ∀ p ∈ a.2.pendingOf i,
      (∀ x, b.2.tasks.get? p.deadline = some x → x.cancelled = true) → S p.deadline)
    (waits : ∀ c call k, a.2.calls.get? c = some call → call.waiter = some k →
      S k ∧ k < a.2.tasks.next)
    (awaits : ∀ k, Awaits a b k → S k) :
    Joins S a.2.ready b.2.ready := by
  have ended : ∀ {w : World} {i : CallerId} {id : MessageId} {cause : Cause},
      w.pendingOf i = a.2.pendingOf i → b.2.tasks = (w.complete i id cause).tasks →
      ∀ p, (w.callers.get? i).bind (·.pending? id) = some p → S p.deadline := by
    intro w i id cause pending tasks p hp
    refine due i p (pending ▸ (Ledger.mem_pendingOf hp).1) fun x task => ?_
    exact complete_cancels hp cause (tasks ▸ task)
  have told : ∀ {w : World}, w.calls = a.2.calls →
      ∀ c call k, w.calls.get? c = some call → call.waiter = some k → S k :=
    fun calls c call k place waiter => (waits c call k (calls ▸ place) waiter).1
  have settled : ∀ {w v : World} {t : TaskId} {r : Registration} {u : Use}
      (result : Except Status Unit),
      a = (some t, w.park t (.register r.owner r.source r.sink r.listener (.use u))) →
      v.ready = w.ready → (∀ e, v.seat? e = w.seat? e) →
      (∀ e, b.2.seat? e = (v.settleCell u.engine result).seat? e) →
      Joins S a.2.ready (v.settleCell u.engine result).ready := by
    intro w v t r u result ha ready seats after
    have hq : a.2.ready = v.ready := by rw [ha, ready]; rfl
    rw [hq]
    refine joins_settleCell _ _ _ fun ws cell k hk first =>
      awaits k ⟨w, t, r, u, ws, ha, ?_, hk, ?_⟩
    · rwa [cell?, ← seats]
    · simpa only [cell?, after] using first
  cases hm with
  | @remove w e p side seat unowned alive unheld =>
    refine joins_remove _ _ _ _ bounded waits fun withdraws => new _ (Nat.le_refl _) ?_
    simp [withdraws]
  | @expire w t i id timeout free =>
    exact joins_complete w i id _ (ended (w := w) rfl rfl) (told (w := w) rfl)
  | @answered w t i c m id free caller alive answers =>
    rw [recordAll_ready]
    exact joins_complete (w.record _) i id _
      (ended (w := w.record _) rfl (recordAll_tasks ..))
      (told (w := w.record _) rfl)
  | @enrol w t r u hub free registration =>
    rw [proceed_ready]
    exact settled _ rfl rfl (fun e => seat?_congr (fun _ => rfl) (fun _ => rfl) e)
      fun e => seat?_congr (by simp) (by simp) e
  | @failRequest w t r i id m s free refusal =>
    refine (settled (u := .request i id m) (v := w.record (.attempted (.caller i) (.error s)))
      (.error s) rfl rfl (by simp) (complete_seat? _ _ _ _)).trans
      (joins_complete _ _ _ _ (ended ?_ rfl) (told ?_))
    · simp [Use.engine]
    · simp [Use.engine]
  | @failServe w t r sv m h s free refusal =>
    exact settled (u := .serve sv m h) (v := w.record (.attempted (.server sv) (.error s)))
      (.error s) rfl rfl (by simp)
      fun e => (record_seat? ..).trans (modifyServer_seat? _ sv (fun _ _ => removeSame_seat ..) e)
  | @refuse w t l m i id s free refusal =>
    exact joins_complete w i id _ (ended (w := w) rfl rfl) (told (w := w) rfl)
  | @broadcast w t l m after free accepted =>
    rw [recordAll_ready]
    refine joins_broadcast w m bounded fun k hk hlt => new k hk ?_
    rwa [recordAll_tasks]
  | @call w v t i method payload options accepted free invoked =>
    have hv : v = (w.invoke i method payload options).2 := by rw [invoked]
    subst hv
    exact joins_invoke w i method payload options bounded new
  | @callRefused w v t i method payload options e free invoked =>
    have hv : v = (w.invoke i method payload options).2 := by rw [invoked]
    subst hv
    exact joins_invoke w i method payload options bounded new
  | _ => exact .of_eq (by simp)

open World in
/-- Of those that join the queue in a move, none waits for a listener but for the attempt that has
just come to its end. -/
theorem Move.queue {a b : Option TaskId × World} (hm : Move a b) (wakeful : a.2.Wakeful)
    (bounded : ∀ k ∈ a.2.ready, k < a.2.tasks.next) :
    Joins (MayJoin a b) a.2.ready b.2.ready := by
  refine hm.joins bounded (fun k hk hlt => .inl ⟨hk, hlt⟩) (fun i p hp _ => ?_)
    (fun c call k place waiter => ?_) fun k hk => .inr (.inr hk)
  · exact .inr (.inl ((wakeful.due i p hp).mono fun j => Job.mayWait_of_call))
  · have keeps := wakeful.awaited c call k place waiter
    exact ⟨.inr (.inl keeps), keeps.1⟩

open World in
/-- At the outset of an act the task whose turn it is leaves the queue, and those join it that are
new or that a timer wakes. -/
theorem Outset.joins {w : World} {a : Act} {b : Option TaskId × World} (ho : Outset w a b)
    {S : TaskId → Prop} (bounded : ∀ k ∈ w.ready, k < w.tasks.next)
    (new : ∀ k, w.tasks.next ≤ k → k < b.2.tasks.next → S k)
    (fired : ∀ τ ∈ w.timers, a = .fire τ.due → S τ.task) :
    ∃ q, ((∀ t, a ≠ .turn t) ∧ q = w.ready ∨ ∃ t, a = .turn t ∧ q = w.ready.erase t) ∧
      Joins S q b.2.ready := by
  have first : ∀ j : Job, b.2.tasks = (w.spawn j).2.tasks → S w.tasks.next := fun j tasks =>
    new _ (Nat.le_refl _) (by rw [tasks]; exact Nat.lt_succ_self _)
  cases ho with
  | take t j ready task => exact ⟨_, .inr ⟨t, rfl, rfl⟩, .refl⟩
  | discard t j ready task => exact ⟨_, .inr ⟨t, rfl, rfl⟩, .refl⟩
  | stale t ready task => exact ⟨_, .inr ⟨t, rfl, rfl⟩, .refl⟩
  | spawn o allowed =>
    exact ⟨_, .inl ⟨by simp, rfl⟩, joins_spawn w _ bounded (first (.start o) rfl)⟩
  | inbound l m =>
    exact ⟨_, .inl ⟨by simp, rfl⟩, joins_spawn w _ bounded (first (.deliver l m) rfl)⟩
  | invoke i method payload options owned =>
    exact ⟨_, .inl ⟨by simp, rfl⟩, joins_invoke w i method payload options bounded new⟩
  | fire due next =>
    refine ⟨w.ready, .inl ⟨by simp, rfl⟩, ?_⟩
    refine joins_wakeAll { w with now := due, timers := w.timers.filter (·.due != due) }
      fun t ht => ?_
    obtain ⟨τ, hτ, rfl⟩ := List.mem_map.mp ht
    obtain ⟨armed, now⟩ := List.mem_filter.mp hτ
    have now : τ.due = due := by simpa using now
    exact fired τ armed (by rw [now])
  | hold e owned => exact ⟨_, .inl ⟨by simp, rfl⟩, .of_eq (by simp [World.hold])⟩
  | drop e side owned => exact ⟨_, .inl ⟨by simp, rfl⟩, .of_eq (by simp)⟩
  | _ => exact ⟨_, .inl ⟨by simp, rfl⟩, .refl⟩

open World in
theorem Outset.leaves {w : World} {a : Act} {b : Option TaskId × World} (ho : Outset w a b)
    (nodup : w.ready.Nodup) (bounded : ∀ k ∈ w.ready, k < w.tasks.next) {t : TaskId}
    (runs : b.1 = some t) : t ∉ b.2.ready := by
  cases ho with
  | take t' j ready task =>
    cases runs
    exact nodup.not_mem_erase
  | enter o allowed =>
    cases runs
    exact fun ready => Nat.lt_irrefl _ (bounded _ ready)
  | _ => cases runs

open World in
/-- At the outset of an act a task leaves the queue if it is to run, and a task joins the queue
that is new or does not wait for a listener. -/
theorem Outset.queue {w : World} {a : Act} {b : Option TaskId × World} (ho : Outset w a b)
    (wakeful : w.Wakeful) (nodup : w.ready.Nodup) (bounded : ∀ k ∈ w.ready, k < w.tasks.next) :
    (∀ t, b.1 = some t → t ∉ b.2.ready) ∧ ∃ q, q.Sublist w.ready ∧
      Joins (fun k => (w.tasks.next ≤ k ∧ k < b.2.tasks.next) ∨ w.KeepsTo (·.mayWait = false) k)
        q b.2.ready := by
  obtain ⟨q, hq, joins⟩ := ho.joins (S := fun k => (w.tasks.next ≤ k ∧ k < b.2.tasks.next) ∨
    w.KeepsTo (·.mayWait = false) k) bounded (fun k hk hlt => .inl ⟨hk, hlt⟩)
    fun τ armed _ => .inr (wakeful.timed τ armed)
  refine ⟨fun t => ho.leaves nodup bounded, q, ?_, joins⟩
  rcases hq with ⟨-, rfl⟩ | ⟨t, -, rfl⟩
  · exact List.Sublist.refl _
  · exact List.erase_sublist

end Switchboard
