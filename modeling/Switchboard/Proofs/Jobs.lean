import Switchboard.Proofs.Runs

/-! # Jobs and events of a world

Which jobs the tasks of a world have and which events have happened, whatever
the keys of the tasks and the times of the events: for each small change of the
world, the jobs and events that it brings.
-/

namespace Switchboard

/-- What a task wants an engine's listener for. -/
def Job.use? : Job → Option Use
  | .prepare u => some u
  | .resume u => some u
  | .register _ _ _ _ (.use u) => some u
  | _ => none

/-- The message that a job passes on or handles. -/
def Job.message? : Job → Option Message
  | .deliver _ m => some m
  | .handle _ _ m => some m
  | .send _ m _ => some m
  | .start (.send _ m) => some m
  | _ => none

namespace World

def HasJob (w : World) (j : Job) : Prop := ∃ k x, w.tasks.get? k = some x ∧ x.job = j

def Has (w : World) (e : Event) : Prop := ∃ τ, (τ, e) ∈ w.events

variable {w v : World} {t : TaskId} {j j' : Job}

theorem HasJob.of_sub (h : w.HasJob j) (sub : w.tasks.Sub v.tasks) : v.HasJob j := by
  obtain ⟨k, x, hk, hj⟩ := h
  exact ⟨k, x, sub k x hk, hj⟩

theorem hasJob_park (w : World) (t : TaskId) (j : Job) : (w.park t j).HasJob j :=
  ⟨t, ⟨j, false⟩, by simp, rfl⟩

theorem park_self (w : World) (t : TaskId) (j : Job) :
    (w.park t j).tasks.get? t = some ⟨j, false⟩ := by
  simp

theorem sleep_self (w : World) (t : TaskId) (ms : Nat) (j : Job) :
    (w.sleep t ms j).tasks.get? t = some ⟨j, false⟩ := by
  simp

theorem running_inj {k : TaskId} (h : (some t, w.park t j) = (some k, v.park k j')) :
    t = k ∧ j = j' := by
  obtain ⟨ht, hw⟩ := Prod.mk.inj h
  cases ht
  have task := congrArg (fun u : World => u.tasks.get? t) hw
  exact ⟨rfl, by simpa using task⟩

/-- What stands under the key of the running task is the job that it runs. -/
theorem running_task {a : Option TaskId × World} {k : TaskId} {x : Task}
    (h : a = (some t, w.park t j)) (runs : a.1 = some k) (task : a.2.tasks.get? k = some x) :
    t = k ∧ j = x.job := by
  subst h
  cases runs
  have running : (⟨j, false⟩ : Task) = x := by simpa using task
  exact ⟨rfl, by rw [← running]⟩

theorem HasJob.of_set (h : v.HasJob j') (tasks : v.tasks = w.tasks.set t ⟨j, false⟩) :
    j' = j ∨ w.HasJob j' := by
  obtain ⟨k, x, hk, rfl⟩ := h
  rw [tasks, Table.get?_set] at hk
  split at hk
  · cases hk
    exact .inl rfl
  · exact .inr ⟨k, x, hk, rfl⟩

theorem HasJob.of_insert (h : v.HasJob j') (tasks : v.tasks = (w.tasks.insert ⟨j, false⟩).2) :
    j' = j ∨ w.HasJob j' := by
  obtain ⟨k, x, hk, rfl⟩ := h
  rw [tasks, Table.get?_insert] at hk
  split at hk
  · cases hk
    exact .inl rfl
  · exact .inr ⟨k, x, hk, rfl⟩

theorem HasJob.of_same (h : v.HasJob j') (tasks : v.tasks = w.tasks) : w.HasJob j' := by
  obtain ⟨k, x, hk, hj⟩ := h
  exact ⟨k, x, tasks ▸ hk, hj⟩

theorem HasJob.of_proceed {es : List Event} {next : Option Job}
    (h : (w.proceed t es next).HasJob j') : next = some j' ∨ w.HasJob j' := by
  cases next with
  | none => exact .inr (h.of_same (by simp))
  | some j =>
    rcases h.of_set (w := w) (t := t) (j := j) (by simp) with rfl | hj
    · exact .inl rfl
    · exact .inr hj

theorem HasJob.of_broadcast (tidy : w.Tidy) {m : Message} (h : (w.broadcast m).HasJob j') :
    (∃ l ∈ w.hub.recipients m, j' = .deliver l m) ∨ w.HasJob j' := by
  obtain ⟨k, x, hk, rfl⟩ := h
  rcases broadcast_task tidy.tasks hk with old | ⟨n, l, -, hl, rfl⟩
  · exact .inr ⟨k, x, old, rfl⟩
  · exact .inl ⟨l, List.mem_of_getElem? hl, rfl⟩

theorem HasJob.of_complete {i : CallerId} {id : MessageId} {cause : Cause}
    (h : (w.complete i id cause).HasJob j') : w.HasJob j' := by
  obtain ⟨k, x, hk, rfl⟩ := h
  obtain ⟨y, hy, same⟩ := complete_task hk
  exact ⟨k, y, hy, same.symm⟩

theorem HasJob.of_accept {i : CallerId} {m : Message} {id : MessageId} {timeout : Duration}
    (h : (w.accept i m id timeout).2.HasJob j') :
    j' = .deadline i id timeout ∨ j' = .prepare (.request i id m) ∨ w.HasJob j' := by
  obtain ⟨k, x, hk, rfl⟩ := h
  simp only [accept_keeps, Table.get?_insert] at hk
  split at hk
  · cases hk
    exact .inr (.inl rfl)
  · split at hk
    · cases hk
      exact .inl rfl
    · exact .inr (.inr ⟨k, x, hk, rfl⟩)

theorem HasJob.of_remove {e : EngineId} {p : Seat} {side : Side}
    (h : (w.remove e p side).HasJob j') :
    p.closed = false ∧ p.cell = .registered ∧ j' = .withdraw p.link p.sink e ∨ w.HasJob j' := by
  rcases remove_tasks w e p side with ⟨opened, registered, -, tasks⟩ | tasks
  · exact (h.of_insert tasks).imp_left fun hj => ⟨opened, registered, hj⟩
  · exact .inr (h.of_same tasks)

theorem Has.of_suffix {e : Event} (h : w.Has e) (hs : w.events <:+ v.events) : v.Has e := by
  obtain ⟨τ, hm⟩ := h
  exact ⟨τ, hs.subset hm⟩

@[simp] theorem has_record {e e' : Event} : (w.record e).Has e' ↔ e' = e ∨ w.Has e' := by
  simp only [Has, record_keeps, List.mem_cons, Prod.mk.injEq]
  constructor
  · rintro ⟨τ, ⟨-, rfl⟩ | hm⟩
    · exact .inl rfl
    · exact .inr ⟨τ, hm⟩
  · rintro (rfl | ⟨τ, hm⟩)
    · exact ⟨w.now, .inl ⟨rfl, rfl⟩⟩
    · exact ⟨τ, .inr hm⟩

@[simp] theorem has_recordAll {es : List Event} {e : Event} :
    (w.recordAll es).Has e ↔ e ∈ es ∨ w.Has e := by
  induction es generalizing w with
  | nil => simp
  | cons e' es ih =>
    simp only [recordAll_cons, ih, has_record, List.mem_cons]
    rw [or_left_comm, or_assoc]

@[simp] theorem has_complete {i : CallerId} {id : MessageId} {cause : Cause} {e : Event} :
    (w.complete i id cause).Has e ↔ e = .ended i id cause ∨ w.Has e := by
  rw [← has_record, Has, Has, complete_events]
  rfl

theorem has_accept {i : CallerId} {m : Message} {id : MessageId} {timeout : Duration} {e : Event} :
    (w.accept i m id timeout).2.Has e ↔ e = .accepted i id timeout ∨ w.Has e := by
  rw [← has_record, Has, Has, accept_events]
  rfl

theorem has_proceed {t : TaskId} {es : List Event} {next : Option Job} {e : Event} :
    (w.proceed t es next).Has e ↔ e ∈ es ∨ w.Has e := by
  rw [← has_recordAll, Has, Has, proceed_events, recordAll_events]

theorem Has.of_invoke {i : CallerId} {method : Address} {payload : Option Payload}
    {options : CallOptions} {e : Event} (h : (w.invoke i method payload options).2.Has e) :
    (∃ id, e = .accepted i id options.timeout) ∨ w.Has e := by
  rcases invoke_cases w i method payload options with
    ⟨s, he⟩ | ⟨s, he⟩ | ⟨c, m, _, _, _, _, he⟩ <;> rw [he] at h
  · exact .inr h
  · exact .inr h
  · exact (has_accept.mp h).imp_left fun accepted => ⟨_, accepted⟩

theorem has_congr (events : v.events = w.events) {e : Event} : v.Has e ↔ w.Has e := by
  rw [Has, Has, events]

@[simp] theorem has_park {t : TaskId} {j : Job} {e : Event} : (w.park t j).Has e ↔ w.Has e :=
  has_congr (park_events ..)

@[simp] theorem has_mint {e : Event} : w.mint.2.Has e ↔ w.Has e := has_congr (mint_events w)

@[simp] theorem has_withHub {hub : Hub} {e : Event} :
    ({ w with hub := hub } : World).Has e ↔ w.Has e := Iff.rfl

@[simp] theorem has_modifySeat {f : Seat → Seat} {i : EngineId} {e : Event} :
    (w.modifySeat f i).Has e ↔ w.Has e := has_congr (modifySeat_events ..)

@[simp] theorem has_modifyServer {s : ServerId} {f : Server → Server} {e : Event} :
    (w.modifyServer s f).Has e ↔ w.Has e := has_congr (modifyServer_events ..)

@[simp] theorem has_settleCell {i : EngineId} {r : Except Status Unit} {e : Event} :
    (w.settleCell i r).Has e ↔ w.Has e := has_congr (settleCell_events ..)

end World

/-! ## Tasks that do not run -/

namespace World

variable {w v : World}

/-- A task other than the one that runs keeps its job; at most it is cancelled, and then it was
the deadline of a pending call. -/
def Stays (w v : World) (k : TaskId) (x : Task) : Prop :=
  v.tasks.get? k = some x ∨
    v.tasks.get? k = some { x with cancelled := true } ∧
      ∃ i id p, (w.callers.get? i).bind (·.pending? id) = some p ∧ p.deadline = k

theorem Stays.of_same {u : World} {k : TaskId} {x : Task} (h : w.Stays v k x)
    (tasks : u.tasks = v.tasks) : w.Stays u k x := by
  rwa [Stays, tasks]

theorem stays_complete {k : TaskId} {x : Task} (task : w.tasks.get? k = some x)
    (i : CallerId) (id : MessageId) (cause : Cause) : w.Stays (w.complete i id cause) k x := by
  cases hp : (w.callers.get? i).bind (·.pending? id) with
  | none =>
    rw [complete_of_none hp]
    exact .inl task
  | some p =>
    by_cases hk : k = p.deadline
    · refine .inr ⟨?_, i, id, p, hp, hk.symm⟩
      rw [complete_tasks_get? hp, if_pos hk, task]
      rfl
    · left
      rw [complete_tasks_get? hp, if_neg hk, task]

theorem settleCell_pending? (w : World) (e : EngineId) (r : Except Status Unit) (i : CallerId)
    (id : MessageId) : ((w.settleCell e r).callers.get? i).bind (·.pending? id) =
      (w.callers.get? i).bind (·.pending? id) := by
  rcases settleCell_eq w e r with he | ⟨cell, ts, he⟩
  · rw [he]
  · simp only [he, wakeAll_keeps, modifySeat_callers]
    split
    · cases w.callers.get? i <;> rfl
    · rfl

theorem sub_broadcast (tidy : w.Tidy) (m : Message) : w.tasks.Sub (w.broadcast m).tasks := by
  obtain ⟨-, -, hold⟩ := broadcast_spawns w m (w.hub.recipients m) tidy.tasks
  exact fun k x hk => (hold k (tidy.tasks.lt hk)).trans hk

theorem sub_invoke (tidy : w.Tidy) (i : CallerId) (method : Address) (payload : Option Payload)
    (options : CallOptions) : w.tasks.Sub (w.invoke i method payload options).2.tasks := by
  rcases invoke_cases w i method payload options with
    ⟨e, he⟩ | ⟨e, he⟩ | ⟨c, m, -, -, -, -, he⟩
  · rw [he]
  · rw [he]
    exact .refl w.tasks
  · rw [he]
    simp only [accept_keeps]
    exact ((Table.Sub.refl _).insert tidy.tasks _).insert (tidy.tasks.insert _) _

end World

open World in
theorem Move.stays {a b : Option TaskId × World} (hm : Move a b) (tidy : a.2.Tidy) {k : TaskId}
    {x : Task} (task : a.2.tasks.get? k = some x) (other : a.1 ≠ some k) :
    a.2.Stays b.2 k x := by
  have parked : ∀ {w : World} {t : TaskId} {j : Job}, a = (some t, w.park t j) →
      k ≠ t ∧ w.tasks.get? k = some x := by
    intro w t j heq
    subst heq
    have hk : k ≠ t := fun hk => other (hk ▸ rfl)
    exact ⟨hk, by simpa [hk] using task⟩
  cases hm with
  | @remove w e p side seat unowned alive unheld =>
    left
    rcases remove_tasks w e p side with ⟨-, -, -, tasks⟩ | tasks <;> rw [tasks]
    · rw [Table.get?_insert, if_neg (Nat.ne_of_lt (tidy.tasks.lt task))]
      exact task
    · exact task
  | @pass w t j es next free passes =>
    obtain ⟨hk, task⟩ := parked rfl
    cases next <;> exact .inl (by simp [hk, task])
  | @enrol w t r u hub free registration =>
    obtain ⟨hk, task⟩ := parked rfl
    cases (w.onward t u).2 <;> exact .inl (by simp [hk, task])
  | @expire w t i id timeout free => exact stays_complete (parked rfl).2 ..
  | @answered w t i c m id free caller alive answers =>
    have ended := stays_complete (w := w.record (.delivered (.engine (.caller i)) m))
      (parked rfl).2 i id (.answered m)
    exact ended.of_same (by simp)
  | @failRequest w t r i id m s free refusal =>
    have ended := stays_complete (w := (w.record (.attempted (.caller i) (.error s))).settleCell
      (.caller i) (.error s)) (k := k) (by simpa using (parked rfl).2) i id (.refused s)
    refine ended.imp_right fun ⟨cancelled, i', id', p, hp, hk⟩ => ⟨cancelled, i', id', p, ?_, hk⟩
    rwa [settleCell_pending?] at hp
  | @refuse w t l m i id s free refusal => exact stays_complete (parked rfl).2 ..
  | @broadcast w t l m after free accepted =>
    left
    rw [recordAll_tasks]
    exact sub_broadcast tidy.unpark m k x (parked rfl).2
  | @call w v t i method payload options accepted free invoked =>
    obtain ⟨hk, task⟩ := parked rfl
    have sub := sub_invoke tidy.unpark i method payload options k x task
    rw [invoked] at sub
    exact .inl (by simpa [hk] using sub)
  | @callRefused w v t i method payload options e free invoked =>
    have sub := sub_invoke tidy.unpark i method payload options k x (parked rfl).2
    rw [invoked] at sub
    exact .inl sub
  | _ =>
    obtain ⟨hk, task⟩ := parked rfl
    exact .inl (by simp [hk, task])

/-- The outset of an act leaves every task its job, but for a cancelled one whose turn has come. -/
theorem Outset.stays {w : World} {a : Act} {b : Option TaskId × World} (ho : Outset w a b)
    (tidy : w.Tidy) {k : TaskId} {x : Task} (task : w.tasks.get? k = some x) :
    b.2.tasks.get? k = some x ∨ x.cancelled = true ∧ b = (none, w.without k) := by
  cases ho with
  | take t j ready task' =>
    left
    by_cases hk : k = t
    · subst hk
      rw [task] at task'
      cases task'
      simp
    · simpa [hk] using task
  | discard t j ready task' =>
    by_cases hk : k = t
    · subst hk
      rw [task] at task'
      cases task'
      exact .inr ⟨rfl, rfl⟩
    · exact .inl (by simpa [hk] using task)
  | enter o allowed =>
    left
    simpa [Nat.ne_of_lt (tidy.tasks.lt task)] using task
  | spawn o allowed =>
    left
    simpa [Nat.ne_of_lt (tidy.tasks.lt task)] using task
  | inbound l m =>
    left
    simpa [Nat.ne_of_lt (tidy.tasks.lt task)] using task
  | invoke i method payload options owned =>
    exact .inl (World.sub_invoke tidy i method payload options k x task)
  | hold e owned => exact .inl (by simpa [World.hold] using task)
  | drop e side owned => exact .inl (by simpa using task)
  | fire due next => exact .inl (by simpa [World.fire] using task)
  | _ => exact .inl task

end Switchboard
