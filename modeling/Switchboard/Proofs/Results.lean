import Switchboard.Proofs.Jobs

/-! # An operation has one result

A task whose operation ends is not in the table any more, so it has no second
result. Main statement: `World.results_after`.
-/

namespace Switchboard

namespace World

variable {w v : World} {t : TaskId} {j : Job}

def Finished (w : World) (k : TaskId) (r : Except Refusal Unit) : Prop := w.Has (.finished k r)

theorem finished_of_result? {r : Except Refusal Unit} (h : w.result? t = some r) :
    w.Finished t r := by
  obtain ⟨⟨τ, e⟩, hm, he⟩ := List.exists_of_findSome?_eq_some h
  cases e with
  | finished t' r' =>
    simp only [Option.ite_none_right_eq_some, Option.some.injEq] at he
    obtain ⟨rfl, rfl⟩ := he
    exact ⟨τ, hm⟩
  | _ => cases he

/-- Nothing has a result that is still to run or to come, and nothing has two. -/
structure Results (w : World) : Prop where
  waiting : ∀ k x, w.tasks.get? k = some x → ∀ r, ¬w.Finished k r
  ahead : ∀ k, w.tasks.next ≤ k → ∀ r, ¬w.Finished k r
  once : ∀ k r r', w.Finished k r → w.Finished k r' → r = r'

structure Onto (w v : World) : Prop where
  next : w.tasks.next ≤ v.tasks.next
  tasks : ∀ k x, v.tasks.get? k = some x → (∃ y, w.tasks.get? k = some y) ∨ w.tasks.next ≤ k

namespace Onto

theorem of_same (tasks : v.tasks = w.tasks) : w.Onto v :=
  ⟨Nat.le_of_eq (by rw [tasks]), fun k x hk => .inl ⟨x, tasks ▸ hk⟩⟩

theorem of_set {j' : Job} (tasks : v.tasks = w.tasks.set t ⟨j', false⟩) : (w.park t j).Onto v := by
  refine ⟨by simp [tasks], fun k x hk => .inl ?_⟩
  rw [tasks, Table.get?_set] at hk
  simp only [park_keeps, Table.get?_set]
  by_cases hkt : k = t
  · exact ⟨_, if_pos hkt⟩
  · rw [if_neg hkt] at hk ⊢
    exact ⟨x, hk⟩

theorem unpark (h : w.Onto v) : (w.park t j).Onto v := by
  refine ⟨h.next, fun k x hk => ?_⟩
  rcases h.tasks k x hk with ⟨y, hy⟩ | hn
  · refine .inl ?_
    simp only [park_keeps, Table.get?_set]
    by_cases hkt : k = t
    · exact ⟨_, if_pos hkt⟩
    · exact ⟨y, (if_neg hkt).trans hy⟩
  · exact .inr hn

/-- The tasks that come while the running task works stay when it waits. -/
theorem park {j' : Job} (h : w.Onto v) : (w.park t j).Onto (v.park t j') := by
  refine ⟨h.next, fun k x hk => ?_⟩
  simp only [park_keeps, Table.get?_set] at hk
  split at hk
  · rename_i hkt
    exact .inl ⟨⟨j, false⟩, by simp [hkt]⟩
  · exact h.unpark.tasks k x hk

theorem of_insert {x : Task} (tasks : v.tasks = (w.tasks.insert x).2) : w.Onto v := by
  refine ⟨by simp [tasks], fun k y hk => ?_⟩
  rw [tasks, Table.get?_insert] at hk
  split at hk
  · rename_i hkt
    exact .inr (Nat.le_of_eq hkt.symm)
  · exact .inl ⟨y, hk⟩

theorem trans {u : World} (h : w.Onto v) (h' : v.Onto u) : w.Onto u := by
  refine ⟨Nat.le_trans h.next h'.next, fun k x hk => ?_⟩
  rcases h'.tasks k x hk with ⟨y, hy⟩ | hn
  · exact h.tasks k y hy
  · exact .inr (Nat.le_trans h.next hn)

theorem complete (w : World) (i : CallerId) (id : MessageId) (cause : Cause) :
    w.Onto (w.complete i id cause) := by
  refine ⟨by simp, fun k x hk => .inl ?_⟩
  obtain ⟨y, hy, -⟩ := complete_task hk
  exact ⟨y, hy⟩

theorem broadcast (tidy : w.Tidy) (m : Message) : w.Onto (w.broadcast m) := by
  obtain ⟨_, next, _⟩ := broadcast_spawns w m (w.hub.recipients m) tidy.tasks
  refine ⟨next, fun k x hk => ?_⟩
  rcases broadcast_task tidy.tasks hk with old | ⟨n, _, rfl, _⟩
  · exact .inl ⟨x, old⟩
  · exact .inr (Nat.le_add_right ..)

theorem invoke (w : World) (i : CallerId) (method : Address) (payload : Option Payload)
    (options : CallOptions) : w.Onto (w.invoke i method payload options).2 := by
  rcases invoke_cases w i method payload options with
    ⟨e, he⟩ | ⟨e, he⟩ | ⟨c, m, _, _, _, _, he⟩ <;> rw [he]
  · exact of_same rfl
  · exact of_same rfl
  · exact (of_insert (v := { w with tasks := (w.tasks.insert _).2 }) rfl).trans
      (of_insert (by simp; rfl))

theorem remove (w : World) (e : EngineId) (p : Seat) (side : Side) :
    w.Onto (w.remove e p side) := by
  rcases remove_tasks w e p side with ⟨-, -, -, tasks⟩ | tasks
  · exact of_insert tasks
  · exact of_same tasks

end Onto

namespace Results

theorem new (h : w.IsNew) : w.Results := by
  obtain ⟨wall, ids, rfl⟩ := h
  refine ⟨?_, ?_, ?_⟩ <;> simp [Finished, Has]

theorem quiet (h : w.Results) (onto : w.Onto v) (events : ∀ k r, v.Finished k r → w.Finished k r) :
    v.Results := by
  refine ⟨fun k x hk r hr => ?_, fun k hk r hr => ?_,
    fun k r r' hr hr' => h.once k r r' (events k r hr) (events k r' hr')⟩
  · rcases onto.tasks k x hk with ⟨y, hy⟩ | hn
    · exact h.waiting k y hy r (events k r hr)
    · exact h.ahead k hn r (events k r hr)
  · exact h.ahead k (Nat.le_trans onto.next hk) r (events k r hr)

theorem finish (h : (w.park t j).Results) (lt : t < w.tasks.next) (free : w.tasks.get? t = none)
    (r : Except Refusal Unit) (onto : w.Onto v)
    (events : ∀ k r', v.Finished k r' → (k = t ∧ r' = r) ∨ w.Finished k r') : v.Results := by
  have running : ∀ r', ¬w.Finished t r' := h.waiting t ⟨j, false⟩ (by simp)
  have others : ∀ k x, v.tasks.get? k = some x → k ≠ t ∧ ∀ r', ¬w.Finished k r' := by
    intro k x hk
    rcases onto.tasks k x hk with ⟨y, hy⟩ | hn
    · have hkt : k ≠ t := by
        intro heq
        subst heq
        rw [free] at hy
        cases hy
      exact ⟨hkt, h.waiting k y (by simpa [hkt] using hy)⟩
    · exact ⟨fun hkt => absurd lt (Nat.not_lt.mpr (hkt ▸ hn)), h.ahead k hn⟩
  refine ⟨fun k x hk r' hr' => ?_, fun k hk r' hr' => ?_, fun k r₁ r₂ h₁ h₂ => ?_⟩
  · obtain ⟨hkt, hno⟩ := others k x hk
    rcases events k r' hr' with ⟨rfl, -⟩ | ho
    · exact hkt rfl
    · exact hno r' ho
  · have hn : w.tasks.next ≤ k := Nat.le_trans onto.next hk
    rcases events k r' hr' with ⟨rfl, -⟩ | ho
    · exact absurd lt (Nat.not_lt.mpr hn)
    · exact h.ahead k hn r' ho
  · rcases events k r₁ h₁ with ⟨rfl, rfl⟩ | h₁ <;> rcases events k r₂ h₂ with ⟨hk, rfl⟩ | h₂
    · rfl
    · exact absurd h₂ (running r₂)
    · rw [hk] at h₁
      exact absurd h₁ (running r₁)
    · exact h.once k r₁ r₂ h₁ h₂

end Results

end World

/-! ## What a turn brings -/

/-- What is recorded on the way has at most one result, that of the running task, which then
ends. -/
def Result (t : TaskId) (es : List Event) (next : Option Job) : Prop :=
  (∀ k r, .finished k r ∉ es) ∨
    next = none ∧ ∃ r, ∀ k r', .finished k r' ∈ es → k = t ∧ r' = r

theorem World.onward_result (w : World) (t : TaskId) (u : Use) :
    Result t (w.onward t u).1 (w.onward t u).2 := by
  cases u with
  | request i id m =>
    left
    simp only [World.onward]
    cases w.callers.get? i <;> simp
  | serve s method h =>
    exact .inr ⟨rfl, .ok (), by simp [World.onward]⟩

theorem AfterSend.result (t : TaskId) (r : Except Status Unit) (after : AfterSend) :
    Result t (after.events t r) none := by
  cases after with
  | report p => exact .inr ⟨rfl, p.result r, by simp [events]⟩
  | _ => exact .inl (by simp [events])

theorem AfterUnregister.result (t : TaskId) (r : Except Status Unit) (after : AfterUnregister) :
    Result t (after.events t r) none := by
  cases after with
  | report p => exact .inr ⟨rfl, p.result r, by simp [events]⟩
  | nothing => exact .inl (by simp [events])

theorem Passes.result {w : World} {t : TaskId} {j : Job} {es : List Event} {next : Option Job}
    (h : Passes w t j es next) : Result t es next := by
  have ends : ∀ r, Result t [.finished t r] none := fun r => .inr ⟨rfl, r, by simp⟩
  cases h with
  | unexpected i c m caller alive unasked =>
    left
    cases c.reportsUnexpected <;> simp
  | useAtOnce u registered => exact w.onward_result t u
  | use u registered => exact w.onward_result t u
  | sendRefused l m after s refusal other => exact after.result t _
  | unregisterRefused l source sink listener after s refusal => exact after.result t _
  | registerRefused r p s refusal => exact ends _
  | postOffTopic o l resource draft payload options link e posting linked offTopic => exact ends _
  | serveRefused s v method h e server refused => exact ends _
  | closedBefore e p seat closed => exact ends _
  | restBriefly => exact ends _
  | rested => exact ends _
  | _ => exact .inl (by simp)

theorem Replies.result {w : World} {s : ServerId} {m : Message} {j : Job} {es : List Event}
    {draft : Draft} {payload : Option Payload} (h : Replies w s m j es draft payload) (k : TaskId)
    (r : Except Refusal Unit) : .finished k r ∉ es := by
  cases h <;> simp

namespace World

variable {w v : World} {t : TaskId} {j : Job}

namespace Results

/-- The running task goes on without a result, or ends with what it records. -/
theorem proceed (h : (w.park t j).Results) (lt : t < w.tasks.next) (free : w.tasks.get? t = none)
    {es : List Event} {next : Option Job} (result : Result t es next)
    (ends : next = none → w.Onto v)
    (goes : ∀ j', next = some j' → v.tasks = w.tasks.set t ⟨j', false⟩)
    (events : ∀ e, v.Has e → e ∈ es ∨ (∀ k r, e ≠ .finished k r) ∨ w.Has e) : v.Results := by
  have has : ∀ k r, v.Finished k r → .finished k r ∈ es ∨ w.Finished k r := fun k r hf =>
    (events _ hf).imp_right fun ho => ho.resolve_left fun hn => hn k r rfl
  rcases result with none | ⟨rfl, r, one⟩
  · refine h.quiet ?_ fun k r hf => (has k r hf).resolve_left (none k r)
    cases next with
    | none => exact (ends rfl).unpark
    | some j' => exact .of_set (goes j' rfl)
  · exact h.finish lt free r (ends rfl) fun k r' hf => (has k r' hf).imp_left (one k r')

theorem finished_of_invoke {i : CallerId} {method : Address} {payload : Option Payload}
    {options : CallOptions} {k : TaskId} {r : Except Refusal Unit}
    (hf : (w.invoke i method payload options).2.Finished k r) : w.Finished k r :=
  (Has.of_invoke hf).resolve_left (by simp)

theorem of_record {r r' : Except Refusal Unit} {k : TaskId}
    (hf : (w.record (.finished t r)).Finished k r') : (k = t ∧ r' = r) ∨ w.Finished k r' := by
  rcases has_record.mp hf with he | ho
  · cases he
    exact .inl ⟨rfl, rfl⟩
  · exact .inr ho

theorem move {a b : Option TaskId × World} (hm : Move a b) (tidy : a.2.Tidy)
    (h : a.2.Results) : b.2.Results := by
  cases hm with
  | @remove w e p side seat unowned alive unheld =>
    exact h.quiet (.remove ..) fun k r hf => (has_congr (by simp)).mp hf
  | @pass w t j es next free passes =>
    exact h.proceed tidy.lt free passes.result (fun he => .of_same (by simp [he]))
      (fun j' hj => by simp [hj]) fun e he => (has_proceed.mp he).imp_right .inr
  | @doze w t j ms free dozes => exact h.quiet (.of_set rfl) fun k r hf => hf
  | @rest w t ms free => exact h.quiet (.of_set rfl) fun k r hf => hf
  | @arm w t i id timeout free => exact h.quiet (.of_set rfl) fun k r hf => hf
  | @expire w t i id timeout free =>
    refine h.quiet (Onto.complete ..).unpark fun k r hf => ?_
    exact (has_complete.mp hf).resolve_left (by simp)
  | @answered w t i c m id free caller alive answers =>
    have received : w.Onto (w.record (.delivered (.engine (.caller i)) m)) := .of_same rfl
    have ended := Onto.complete (w.record (.delivered (.engine (.caller i)) m)) i id (.answered m)
    refine h.quiet (received.trans (ended.trans (.of_same (by simp)))).unpark fun k r hf => ?_
    simp only [Finished, has_recordAll, has_complete, has_record, reduceCtorEq, false_or] at hf
    rcases hf with hf | hf
    · split at hf <;> simp at hf
    · exact hf
  | @reply w t s v m a j es draft payload free server replies finish =>
    refine h.quiet (.of_set (park_tasks_congr (by simp))) fun k r hf => ?_
    have : ((((w.recordAll es).mint.2.record (.answered s m a)).record
        (.sent v.seat.link a))).Has (.finished k r) := hf
    simp only [has_record, reduceCtorEq, false_or] at this
    exact (has_recordAll.mp this).resolve_left (replies.result k r)
  | @mute w t s v m j es draft payload e free server replies finish =>
    refine h.quiet (Onto.of_same (by simp)).unpark fun k r hf => ?_
    exact (has_recordAll.mp hf).resolve_left (replies.result k r)
  | @claim w t u p free seat vacant =>
    exact h.quiet (.of_set (park_tasks_congr (by simp))) fun k r hf => (has_congr (by simp)).mp hf
  | @wait w t u p waiting free seat attempting =>
    exact h.quiet (.of_set (park_tasks_congr (by simp))) fun k r hf => (has_congr (by simp)).mp hf
  | @enrol w t r u hub free registration =>
    refine h.proceed tidy.lt free (w.onward_result t u) (fun he => .of_same (by simp [he]))
      (fun j' hj => by simp [hj]) fun e he => ?_
    rcases has_proceed.mp he with hm | ho
    · exact .inl hm
    · rcases has_record.mp (has_settleCell.mp ho) with rfl | ho
      · exact .inr (.inl (by simp))
      · exact .inr (.inr ho)
  | @failRequest w t r i id m s free refusal =>
    refine h.quiet (Onto.trans (.of_same (by simp)) (Onto.complete ..)).unpark fun k r hf => ?_
    have := (has_complete.mp hf).resolve_left (by simp)
    rw [has_congr (w := w.record (.attempted (.caller i) (.error s))) (by simp)] at this
    exact (has_record.mp this).resolve_left (by simp)
  | @failServe w t r sv method hd s free refusal =>
    refine h.finish tidy.lt free (.error (.failure (.transport s))) (.of_same (by simp))
      fun k r hf => ?_
    refine (of_record hf).imp_right fun ho => ?_
    have : (w.record (.attempted (.server sv) (.error s))).Finished k r :=
      (has_congr (by simp)).mp ho
    exact (has_record.mp this).resolve_left (by simp)
  | @enlist w t r p hub free registration =>
    exact h.finish tidy.lt free (p.result (.ok ())) (.of_same rfl) fun k r hf => of_record hf
  | @unlist w t l source sink listener after hub free unregistration =>
    exact h.proceed tidy.lt free (after.result t (.ok ())) (fun _ => .of_same (by simp))
      (fun _ hj => by cases hj) fun e he => (has_recordAll.mp he).imp_right .inr
  | @refuse w t l m i id s free refusal =>
    refine h.quiet (Onto.complete ..).unpark fun k r hf => ?_
    exact (has_complete.mp hf).resolve_left (by simp)
  | @broadcast w t l m after free accepted =>
    refine h.proceed tidy.lt free (after.result t (.ok ()))
      (fun _ => (Onto.broadcast tidy.unpark m).trans (.of_same (by simp)))
      (fun _ hj => by cases hj) fun e he => ?_
    exact (has_recordAll.mp he).imp_right fun ho => .inr ((has_congr (by simp)).mp ho)
  | @await w t k held call free place pending => exact h.quiet (.of_set rfl) fun k r hf => hf
  | @addHandler w t s v method hd free server vacant => exact h.quiet (.of_set rfl) fun k r hf => hf
  | @closeListening w t e p free seat opened registered =>
    exact h.quiet (.of_set (park_tasks_congr (by simp))) fun k r hf => (has_congr (by simp)).mp hf
  | @closeDeaf w t e p free seat opened unregistered =>
    exact h.finish tidy.lt free (.ok ()) (.of_same (by simp)) fun k r hf =>
      (of_record hf).imp_right (has_congr (by simp)).mp
  | @post w t o l resource draft payload options link topic m free posting linked onTopic finish =>
    refine h.quiet (.of_set rfl) fun k r hf => ?_
    have : (w.mint.2.record (.sent l m)).Has (.finished k r) := hf
    exact (has_record.mp this).resolve_left (by simp)
  | @postInvalid w t o l resource draft payload options link topic e free posting linked onTopic
      finish =>
    exact h.finish tidy.lt free (.error (.failure e)) (.of_same rfl) fun k r hf => of_record hf
  | @call w v t i method payload options accepted free invoked =>
    have onto := Onto.invoke w i method payload options
    have quiet : ∀ k r, (w.invoke i method payload options).2.Finished k r → w.Finished k r :=
      fun k r => finished_of_invoke
    rw [invoked] at onto quiet
    exact h.quiet onto.park quiet
  | @callRefused w v t i method payload options e free invoked =>
    have onto := Onto.invoke w i method payload options
    have quiet : ∀ k r, (w.invoke i method payload options).2.Finished k r → w.Finished k r :=
      fun k r => finished_of_invoke
    rw [invoked] at onto quiet
    have refused : v.Onto (v.record (.resolved t (.error e))) := .of_same rfl
    exact h.quiet (onto.trans refused).unpark fun k r hf =>
      quiet k r ((has_record.mp hf).resolve_left (by simp))

theorem outset {a : Act} {b : Option TaskId × World} (ho : Outset w a b) (h : w.Results) :
    b.2.Results := by
  cases ho with
  | take t j ready task =>
    refine h.quiet ⟨Nat.le_refl _, fun k x hk => .inl ?_⟩ fun k r hf => hf
    simp only [park_keeps, without_keeps, Table.get?_set, Table.get?_erase] at hk
    by_cases hkt : k = t
    · exact ⟨_, hkt ▸ task⟩
    · exact ⟨x, by simpa [hkt] using hk⟩
  | discard t j ready task =>
    refine h.quiet ⟨Nat.le_refl _, fun k x hk => .inl ?_⟩ fun k r hf => hf
    simp only [without_keeps, Table.get?_erase] at hk
    split at hk
    · cases hk
    · exact ⟨x, hk⟩
  | enter o allowed =>
    refine h.quiet ⟨Nat.le_succ _, fun k x hk => ?_⟩ fun k r hf => hf
    simp only [park_keeps, Table.get?_set, Table.get?_reserve] at hk
    split at hk
    · rename_i hkt
      exact .inr (Nat.le_of_eq hkt.symm)
    · exact .inl ⟨x, hk⟩
  | spawn o allowed => exact h.quiet (.of_insert rfl) fun k r hf => hf
  | inbound l m => exact h.quiet (.of_insert rfl) fun k r hf => hf
  | invoke i method payload options owned =>
    exact h.quiet (.invoke ..) fun k r => finished_of_invoke
  | fire due next =>
    exact h.quiet (.of_same (by simp [fire])) fun k r hf => (has_congr (by simp [fire])).mp hf
  | hold e owned =>
    exact h.quiet (.of_same (by simp [hold])) fun k r hf => (has_congr (by simp [hold])).mp hf
  | drop e side owned =>
    exact h.quiet (.of_same (by simp)) fun k r hf => (has_congr (by simp)).mp hf
  | _ => exact h.quiet (.of_same rfl) fun k r hf => hf

theorem kept : Kept (fun _ _ => True) fun a => a.2.Results :=
  ⟨fun _ ho _ h => h.outset ho, fun tidy hm h => h.move hm tidy⟩

end Results

/-- **An operation has one result.** -/
theorem results_after (new : w.IsNew) {as : List Act} (run : w.CanRun as) : (w.after as).Results :=
  (Results.kept.run run (run.mono fun _ _ _ => trivial) (.new new) (.new new)).2

end World

end Switchboard
