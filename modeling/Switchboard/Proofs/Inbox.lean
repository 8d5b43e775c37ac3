import Mathlib.Data.Finset.Card
import Mathlib.Data.List.Nodup
import Switchboard.Proofs.Completions

/-! # What a caller makes of its messages

A message that a caller receives is used exactly once: it answers one pending call, or nothing
changes and it is reported as unexpected. So at all times the messages that a caller has received
are as many as its calls that have been answered and the messages that it has reported. Main
statement: `messages_used_once`.
-/

namespace Switchboard

open World History

theorem Message.answers?_iff {m : Message} {id : MessageId} :
    m.answers? = some id ↔ m.attributes.isResponse = true ∧ m.attributes.validate = .ok () ∧
      m.attributes.requestId = some id := by
  refine ⟨Message.answers?_eq_some, fun ⟨response, valid, requestId⟩ => ?_⟩
  simp [Message.answers?, Attributes.isValid, response, valid, requestId]

theorem Message.outcome_of_success {m : Message}
    (success : m.attributes.commStatus = none ∨ m.attributes.commStatus = some .ok) :
    m.outcome = .ok (m.payload.getD .empty) := by
  rcases success with status | status <;>
    simp [outcome, payloadOrEmpty, Attributes.hasFailureStatus, status]

theorem Message.outcome_of_failure {m : Message} {code : Code}
    (status : m.attributes.commStatus = some code) (failure : code ≠ .ok) :
    m.outcome = .error (.remote ⟨code, m.attributes.commMessage.getD ""⟩) := by
  simp [outcome, Attributes.hasFailureStatus, status, failure]

namespace World

variable {w v : World} {i j : CallerId} {c : Caller} {p q : PendingCall} {m : Message}
  {o : Except Failure Payload}

/-- The second world is the first one once a call of the caller has come to an outcome: its entry is
gone, its deadline is cancelled, the outcome stands in its place, and whoever waits for it is ready.
No other call, task or timer has changed, and no message has been reported. -/
structure Answers (w v : World) (i : CallerId) (p : PendingCall) (o : Except Failure Payload) :
    Prop where
  entry : ∃ before later, w.pendingOf i = before ++ p :: later ∧ v.pendingOf i = before ++ later
  elsewhere : ∀ j ≠ i, v.pendingOf j = w.pendingOf j
  timers : v.timers = w.timers.filter (·.task != p.deadline)
  deadline : ∃ job, w.tasks.get? p.deadline = some ⟨job, false⟩ ∧
    v.tasks.get? p.deadline = some ⟨job, true⟩
  tasks : ∀ k ≠ p.deadline, v.tasks.get? k = w.tasks.get? k
  place : ∃ call, w.calls.get? p.call = some call ∧ call.caller = i ∧ call.id = p.id ∧
    call.outcome = none ∧
    v.calls.get? p.call = some { call with outcome := some o, waiter := none } ∧
    ∀ k, call.waiter = some k → k ∈ v.ready
  places : ∀ k ≠ p.call, v.calls.get? k = w.calls.get? k
  unreported : v.seen Event.unexpected? = w.seen Event.unexpected?

/-- Nothing has changed but that the message may have been reported as unexpected. -/
structure Ignores (w v : World) (i : CallerId) (c : Caller) (m : Message) : Prop where
  callers : v.callers = w.callers
  timers : v.timers = w.timers
  tasks : v.tasks = w.tasks
  calls : v.calls = w.calls
  reported : v.seen Event.unexpected? =
    w.seen Event.unexpected? ++ if c.reportsUnexpected then [(i, m)] else []

/-- A pending call has kept its entry, its deadline with the timer, and its place. -/
structure Spares (w v : World) (j : CallerId) (q : PendingCall) : Prop where
  entry : q ∈ v.pendingOf j
  deadline : v.tasks.get? q.deadline = w.tasks.get? q.deadline
  timers : v.timers.filter (·.task == q.deadline) = w.timers.filter (·.task == q.deadline)
  place : v.calls.get? q.call = w.calls.get? q.call

theorem filter_of_nodup {before later : List PendingCall} {p : PendingCall}
    (nodup : ((before ++ p :: later).map (·.id)).Nodup) :
    (before ++ p :: later).filter (·.id != p.id) = before ++ later := by
  rw [List.map_append, List.map_cons, List.nodup_middle, List.nodup_cons, ← List.map_append,
    List.mem_map] at nodup
  have others : ∀ q ∈ before ++ later, (q.id != p.id) = true := fun q hq =>
    bne_iff_ne.mpr fun same => nodup.1 ⟨q, hq, same⟩
  rw [← List.filter_eq_self.mpr others]
  simp

/-- Whoever waits for a call is ready once it has come to an outcome. -/
theorem resolve_wakes {k : CallId} {call : Call} {t : TaskId} (place : w.calls.get? k = some call)
    (waits : call.waiter = some t) (o : Except Failure Payload) : t ∈ (w.resolve k o).ready := by
  simp only [resolve, place, waits]
  exact mem_wake ..

/-- **An answer ends its call** and nothing else. -/
theorem Docket.answers (h : w.Docket) (pends : p ∈ w.pendingOf i) (es : List Event)
    (quiet : ∀ e ∈ es, isEntry e = false ∧ e.unexpected? = none) (cause : Cause) :
    w.Answers ((w.recordAll es).complete i p.id cause) i p cause.outcome := by
  have ends := h.ends pends es quiet cause
  have hp : ((w.recordAll es).callers.get? i).bind (·.pending? p.id) = some p := by
    simpa using h.pending?_eq pends
  obtain ⟨A, -, watch⟩ := h.watched i p pends
  obtain ⟨job, task, -⟩ := watch?_eq_some.mp watch
  obtain ⟨call, place, same⟩ := Option.map_eq_some_iff.mp (h.places i p pends)
  simp only [Prod.mk.injEq] at same
  constructor
  case entry =>
    obtain ⟨before, later, split⟩ := List.append_of_mem pends
    refine ⟨before, later, split, ?_⟩
    rw [ends.pending, if_pos rfl, split]
    exact filter_of_nodup (split ▸ h.sole i)
  case elsewhere => exact fun j other => by rw [ends.pending, if_neg other]
  case timers => exact ends.timers
  case deadline =>
    refine ⟨job, task, ?_⟩
    rw [complete_tasks_get? hp, if_pos rfl, recordAll_tasks, task]
    rfl
  case tasks =>
    intro k other
    rw [complete_tasks_get? hp, if_neg other, recordAll_tasks]
  case place =>
    refine ⟨call, place, same.1, same.2.1, same.2.2, ?_, fun k waits => ?_⟩
    · rw [complete_calls_get? hp, if_pos rfl]
      simp [place]
    · rw [complete_of_some hp]
      exact resolve_wakes (by simpa using place) waits _
  case places =>
    intro k other
    rw [complete_calls_get? hp, if_neg other]
    simp
  case unreported => exact ends.unexpected

/-- A message to a caller that is there answers a pending call, or is ignored. -/
theorem Docket.deliver (h : w.Docket) (caller : w.callers.get? i = some c)
    (here : c.seat.gone = false) (t : TaskId) (m : Message) :
    (∃ p ∈ w.pendingOf i, m.answers? = some p.id ∧
      w.Answers (w.deliver t (.engine (.caller i)) m) i p m.outcome) ∨
    ((∀ p ∈ w.pendingOf i, m.answers? ≠ some p.id) ∧
      w.Ignores (w.deliver t (.engine (.caller i)) m) i c m) := by
  have ignored : ∀ u : World, u.callers = w.callers → u.timers = w.timers → u.tasks = w.tasks →
      u.calls = w.calls → u.seen Event.unexpected? = w.seen Event.unexpected? →
      w.Ignores (u.reportUnexpected i c m) i c m := by
    intro u callers timers tasks calls seen
    unfold reportUnexpected
    split
    · rename_i reports
      exact ⟨callers, timers, tasks, calls, by simp [seen, Event.unexpected?, reports]⟩
    · rename_i reports
      exact ⟨callers, timers, tasks, calls, by simp [seen, reports]⟩
  cases answers : m.answers? with
  | none =>
    right
    refine ⟨by simp, ?_⟩
    simp only [World.deliver, caller, here, Bool.false_eq_true, if_false, receive, answers]
    exact ignored _ rfl rfl rfl rfl (by simp [Event.unexpected?])
  | some id =>
    cases entry : c.pending? id with
    | none =>
      right
      have unknown : (w.callers.get? i).bind (·.pending? id) = none := by simp [caller, entry]
      refine ⟨fun p pends same => Ledger.notMem_pendingOf unknown p pends ?_, ?_⟩
      · exact (Option.some.inj same).symm
      simp only [World.deliver, caller, here, Bool.false_eq_true, if_false, receive, answers, entry,
        Option.isSome_none]
      rw [complete_of_none (by simpa using unknown)]
      exact ignored _ rfl rfl rfl rfl (by simp [Event.unexpected?])
    | some p =>
      left
      have found : (w.callers.get? i).bind (·.pending? id) = some p := by simp [caller, entry]
      obtain ⟨pends, rfl⟩ := Ledger.mem_pendingOf found
      refine ⟨p, pends, rfl, ?_⟩
      simp only [World.deliver, caller, here, Bool.false_eq_true, if_false, receive, answers, entry,
        Option.isSome_some, if_true]
      exact h.answers pends [.delivered (.engine (.caller i)) m]
        (by simp [isEntry, Event.unexpected?]) (.answered m)

theorem Answers.spares (h : w.Answers v i p o) (docket : w.Docket) (pends : p ∈ w.pendingOf i)
    (pends' : q ∈ w.pendingOf j) (other : ¬(i = j ∧ p = q)) : w.Spares v j q := by
  have deadlines : q.deadline ≠ p.deadline := fun same =>
    other (docket.eq_of_deadline pends pends' same.symm)
  have calls : q.call ≠ p.call := fun same => other (docket.eq_of_call pends pends' same.symm)
  constructor
  case entry =>
    by_cases hj : j = i
    · subst hj
      obtain ⟨before, later, split, rest⟩ := h.entry
      rw [split] at pends'
      rw [rest]
      have : q ≠ p := fun same => other ⟨rfl, same.symm⟩
      simpa [this] using pends'
    · rw [h.elsewhere j hj]
      exact pends'
  case deadline => exact h.tasks _ deadlines
  case timers =>
    rw [h.timers, List.filter_filter]
    refine List.filter_congr fun τ _ => ?_
    by_cases own : τ.task = q.deadline <;> simp [own, deadlines]
  case place => exact h.places _ calls

theorem Ignores.spares (h : w.Ignores v i c m) (pends : q ∈ w.pendingOf j) : w.Spares v j q :=
  ⟨by rwa [pendingOf_congr h.callers], by rw [h.tasks], by rw [h.timers], by rw [h.calls]⟩

/-! ## What has become of the messages -/

def inbox (w : World) (i : CallerId) : List Message :=
  w.seen (Event.deliveredTo? (.engine (.caller i)))

def reported (w : World) (i : CallerId) : List Message :=
  (w.seen Event.unexpected?).filterMap fun x => if x.1 = i then some x.2 else none

/-- Whether the caller tells of unexpected messages, if there is such a caller. -/
def reports? (w : World) (i : CallerId) : Option Bool :=
  (w.callers.get? i).map (·.reportsUnexpected)

end World

/-- The outcome is a payload or a status from the peer, which only answers bring. -/
def isAnswer : Except Failure Payload → Bool
  | .ok _ => true
  | .error (.remote _) => true
  | _ => false

theorem Message.isAnswer_outcome (m : Message) : isAnswer m.outcome = true := by
  unfold Message.outcome
  split
  · split <;> rfl
  · rfl

namespace World

variable {w v : World} {i : CallerId}

/-- The caller whose call stands at the place and has been answered. -/
def answered? (w : World) (k : CallId) : Option CallerId :=
  (w.account k).bind fun c => if c.2.2.any isAnswer then some c.1 else none

def answered (w : World) (i : CallerId) : Finset CallId :=
  (Finset.range w.calls.next).filter fun k => w.answered? k = some i

theorem answered?_congr {k : CallId} (place : v.calls.get? k = w.calls.get? k) :
    v.answered? k = w.answered? k := by
  rw [answered?, answered?, account, account, place]

theorem mem_answered (tidy : w.Tidy) {k : CallId} :
    k ∈ w.answered i ↔ w.answered? k = some i := by
  refine Finset.mem_filter.trans (and_iff_right_of_imp fun own => ?_)
  refine Finset.mem_range.mpr (Nat.lt_of_not_le fun late => ?_)
  rw [answered?, account, tidy.calls k late] at own
  cases own

theorem reports?_congr (callers : v.callers = w.callers) (i : CallerId) :
    v.reports? i = w.reports? i := by
  rw [reports?, reports?, callers]

@[simp] theorem modifySeat_reports? (w : World) (f : Seat → Seat) (e : EngineId) (i : CallerId) :
    (w.modifySeat f e).reports? i = w.reports? i := by
  rw [reports?, modifySeat_callers]
  split
  · simp [reports?, Function.comp_def]
  · rfl

@[simp] theorem settleCell_reports? (w : World) (e : EngineId) (r : Except Status Unit)
    (i : CallerId) : (w.settleCell e r).reports? i = w.reports? i := by
  rcases settleCell_eq w e r with he | ⟨cell, ts, he⟩ <;> rw [he]
  rw [← modifySeat_reports? w (fun p => { p with cell := cell }) e i, reports?, reports?]
  simp

@[simp] theorem complete_reports? (w : World) (i : CallerId) (id : MessageId) (cause : Cause)
    (j : CallerId) : (w.complete i id cause).reports? j = w.reports? j := by
  cases hp : (w.callers.get? i).bind (·.pending? id) with
  | none => rw [complete_of_none hp]; rfl
  | some p =>
    rw [complete_of_some hp]
    simp only [reports?, resolve_keeps, cancel_keeps, modifyCaller_keeps, record_keeps,
      Table.get?_modify]
    split
    · simp [Function.comp_def, Caller.forget]
    · rfl

@[simp] theorem remove_reports? (w : World) (e : EngineId) (p : Seat) (side : Side)
    (i : CallerId) : (w.remove e p side).reports? i = w.reports? i := by
  rw [reports?, remove_callers]
  split
  · simp [reports?, Function.comp_def]
  · rfl

@[simp] theorem invoke_reports? (w : World) (i : CallerId) (method : Address)
    (payload : Option Payload) (options : CallOptions) (j : CallerId) :
    (w.invoke i method payload options).2.reports? j = w.reports? j := by
  rcases invoke_cases w i method payload options with
    ⟨e, he⟩ | ⟨e, he⟩ | ⟨c, m, -, -, -, -, he⟩ <;> rw [he]
  · rfl
  · simp only [reports?, accept_keeps, mint_keeps, Table.get?_modify]
    split
    · simp [Function.comp_def]
    · rfl

theorem invoke_answered? (tidy : w.Tidy) (i : CallerId) (method : Address)
    (payload : Option Payload) (options : CallOptions) (k : CallId) :
    (w.invoke i method payload options).2.answered? k = w.answered? k := by
  rcases invoke_cases w i method payload options with
    ⟨e, he⟩ | ⟨e, he⟩ | ⟨c, m, -, -, -, -, he⟩ <;> rw [he]
  · rfl
  · rw [answered?, account]
    simp only [accept_keeps, mint_keeps, Table.get?_insert]
    split
    · rename_i hk
      rw [hk, answered?, account, tidy.calls.next]
      rfl
    · rfl

/-- A call that comes to its end otherwise has not been answered. -/
theorem Docket.complete_answered? (h : w.Docket) {id : MessageId}
    (entry : (v.callers.get? i).bind (·.pending? id) = (w.callers.get? i).bind (·.pending? id))
    (calls : v.calls = w.calls) {cause : Cause} (other : isAnswer cause.outcome = false)
    (k : CallId) : (v.complete i id cause).answered? k = w.answered? k := by
  cases hp : (v.callers.get? i).bind (·.pending? id) with
  | none =>
    rw [complete_of_none hp]
    exact answered?_congr (by rw [← calls]; rfl)
  | some p =>
    obtain ⟨pends, -⟩ := Ledger.mem_pendingOf (entry ▸ hp)
    rw [answered?, complete_account hp, account_congr calls]
    split
    · rename_i hk
      rw [answered?, hk, h.places i p pends]
      simp [other]
    · rfl

/-- No message has been used. There may be a new caller. -/
structure Unread (w v : World) : Prop where
  reports : ∀ i r, w.reports? i = some r → v.reports? i = some r
  answers : ∀ k, v.answered? k = w.answered? k
  unexpected : v.seen Event.unexpected? = w.seen Event.unexpected?

theorem Unread.of_same (reports : ∀ i, v.reports? i = w.reports? i)
    (answers : ∀ k, v.answered? k = w.answered? k)
    (unexpected : v.seen Event.unexpected? = w.seen Event.unexpected?) : w.Unread v :=
  ⟨fun i _ same => (reports i).trans same, answers, unexpected⟩

theorem Unread.congr (callers : v.callers = w.callers) (calls : v.calls = w.calls)
    (unexpected : v.seen Event.unexpected? = w.seen Event.unexpected?) : w.Unread v :=
  .of_same (reports?_congr callers) (fun _ => answered?_congr (by rw [calls])) unexpected

/-- What ends a call without a message uses none. -/
theorem Docket.unread_complete (h : w.Docket) {id : MessageId}
    (reports : ∀ j, v.reports? j = w.reports? j)
    (entry : (v.callers.get? i).bind (·.pending? id) = (w.callers.get? i).bind (·.pending? id))
    (calls : v.calls = w.calls)
    (unexpected : v.seen Event.unexpected? = w.seen Event.unexpected?) {cause : Cause}
    (other : isAnswer cause.outcome = false) : w.Unread (v.complete i id cause) :=
  .of_same (fun j => (complete_reports? ..).trans (reports j))
    (h.complete_answered? entry calls other) (by simp [unexpected, Event.unexpected?])

theorem unread_invoke (tidy : w.Tidy) (i : CallerId) (method : Address) (payload : Option Payload)
    (options : CallOptions) : w.Unread (w.invoke i method payload options).2 :=
  .of_same (invoke_reports? w i method payload options)
    (invoke_answered? tidy i method payload options)
    (invoke_seen w (fun _ _ _ => rfl) i method payload options)

end World

theorem World.onward_unreported (w : World) (t : TaskId) (u : Use) :
    (w.onward t u).1.filterMap Event.unexpected? = [] := by
  cases u with
  | request i id m => simp only [onward]; split <;> rfl
  | serve s method h => rfl

/-- A task that only passes on reports no message, unless it delivers one to a caller. -/
theorem Passes.unreported {w : World} {t : TaskId} {j : Job} {es : List Event} {next : Option Job}
    (h : Passes w t j es next) (other : ∀ i m, j ≠ .deliver (.engine (.caller i)) m) :
    es.filterMap Event.unexpected? = [] := by
  cases h with
  | unexpected i c m caller alive unasked => exact absurd rfl (other i m)
  | useAtOnce u registered => exact w.onward_unreported t u
  | use u registered => exact w.onward_unreported t u
  | sendRefused l m after s refusal none => cases after <;> rfl
  | unregisterRefused l source sink listener after s refusal => cases after <;> rfl
  | _ => rfl

/-- Without a delivery to a caller no message is used. -/
theorem Move.unread {a b : Option TaskId × World} (hm : Move a b) (tidy : a.2.Tidy)
    (docket : a.2.Docket)
    (other : ∀ (w : World) t i m, a ≠ (some t, w.park t (.deliver (.engine (.caller i)) m))) :
    a.2.Unread b.2 := by
  cases hm with
  | @remove w e p side seat unowned alive unheld =>
    exact .of_same (by simp) (fun k => answered?_congr (by rw [docket.remove_calls unheld p side]))
      (seen_congr (by simp))
  | @pass w t j es next free passes =>
    have silent := passes.unreported fun i m he => other w t i m (by rw [he])
    exact .congr (by simp) (by simp) (by simp [silent])
  | doze | rest | arm => exact .congr rfl rfl rfl
  | @expire w t i id timeout free =>
    exact docket.unread_complete (v := w) (fun _ => rfl) rfl rfl rfl (by rfl)
  | answered => exact absurd rfl (other _ _ _ _)
  | @failRequest w t r i id m s free refusal =>
    let v := w.record (.attempted (.caller i) (.error s))
    exact docket.unread_complete (v := v.settleCell (.caller i) (.error s))
      (settleCell_reports? v _ _) (settleCell_pending? ..) (by simp [v])
      (by simp [v, Event.unexpected?]) (by rfl)
  | @refuse w t l m i id s free refusal =>
    exact docket.unread_complete (v := w) (fun _ => rfl) rfl rfl rfl (by rfl)
  | @failServe w t r sv method h s free refusal =>
    refine .of_same (fun j => ?_) (fun k => answered?_congr (by simp)) (by simp [Event.unexpected?])
    exact settleCell_reports? (w.record (.attempted (.server sv) (.error s))) ..
  | @enrol w t r u hub free registration =>
    have silent : (w.onward t u).1.filterMap Event.unexpected? = [] := onward_unreported w t u
    refine .of_same (fun j => ?_) (fun k => answered?_congr (by simp))
      (by simp [silent, Event.unexpected?])
    let v := { w with hub := hub }.record (.attempted u.engine (.ok ()))
    have kept : (v.settleCell u.engine (.ok ())).reports? j = w.reports? j :=
      settleCell_reports? v u.engine (.ok ()) j
    exact (reports?_congr (by simp [v]) j).trans kept
  | @reply w t s v m a j es draft payload free server replies finish =>
    have silent : es.filterMap Event.unexpected? = [] := by cases replies <;> rfl
    exact .congr (by simp) (by simp) (by simp [silent, Event.unexpected?])
  | @mute w t s v m j es draft payload e free server replies finish =>
    have silent : es.filterMap Event.unexpected? = [] := by cases replies <;> rfl
    exact .congr (by simp) (by simp) (by simp [silent])
  | @unlist w t l source sink listener after hub free unregistration =>
    have silent : (after.events t (.ok ())).filterMap Event.unexpected? = [] := by
      cases after <;> rfl
    exact .congr (by simp) (by simp) (by simp [silent])
  | @broadcast w t l m after free accepted =>
    have silent : (after.events t (.ok ())).filterMap Event.unexpected? = [] := by
      cases after <;> rfl
    exact .congr (by simp) (by simp) (by simp [silent])
  | @await w t k held call free place pending =>
    refine .of_same (fun _ => rfl) (fun k' => ?_) rfl
    rw [answered?, answered?, account, account]
    by_cases hk : k' = k
    · simp [hk, place]
    · simp [hk]
  | claim | wait | closeListening =>
    exact .of_same (fun _ => modifySeat_reports? ..) (fun k => answered?_congr (by simp)) (by simp)
  | closeDeaf =>
    exact .of_same (fun _ => modifySeat_reports? ..) (fun k => answered?_congr (by simp))
      (by simp [Event.unexpected?])
  | @call w v t i method payload options accepted free invoked =>
    have made := unread_invoke tidy.unpark i method payload options
    rw [invoked] at made
    exact ⟨made.reports, made.answers, made.unexpected⟩
  | @callRefused w v t i method payload options e free invoked =>
    have made := unread_invoke tidy.unpark i method payload options
    rw [invoked] at made
    exact ⟨made.reports, made.answers, by simp [made.unexpected, Event.unexpected?]⟩
  | _ => exact .congr (by simp) (by simp) (by simp [Event.unexpected?])

theorem Outset.unread {w : World} {a : Act} {b : Option TaskId × World} (ho : Outset w a b)
    (tidy : w.Tidy) : w.Unread b.2 := by
  cases ho with
  | addCaller l link reports linked =>
    refine ⟨fun i r old => ?_, fun k => rfl, rfl⟩
    rw [reports?, Table.get?_insert, if_neg]
    · exact old
    · rintro rfl
      rw [reports?, tidy.callers.next] at old
      cases old
  | invoke i method payload options owned => exact unread_invoke tidy i method payload options
  | fire due next =>
    exact .congr (by simp [World.fire]) (by simp [World.fire]) (seen_congr (by simp [World.fire]))
  | hold e owned =>
    exact .of_same (fun _ => modifySeat_reports? ..)
      (fun k => answered?_congr (by simp [World.hold])) (seen_congr (by simp [World.hold]))
  | drop e side owned =>
    exact .of_same (fun _ => modifySeat_reports? ..) (fun k => answered?_congr (by simp))
      (seen_congr (by simp))
  | _ => exact .congr rfl rfl rfl

/-- A task that delivers a message to a caller does so in one move, and is lost on a caller that is
gone. -/
theorem Move.delivered {a b : Option TaskId × World} (hm : Move a b) {w : World} {t : TaskId}
    {i : CallerId} {m : Message} (ha : a = (some t, w.park t (.deliver (.engine (.caller i)) m))) :
    ∃ u : World, a = (some t, u.park t (.deliver (.engine (.caller i)) m)) ∧
      u.tasks.get? t = none ∧
      (u.attends (.engine (.caller i)) = false ∧ b.2 = u ∨
        ∃ c, u.callers.get? i = some c ∧ c.seat.gone = false ∧
          b.2 = u.deliver t (.engine (.caller i)) m) := by
  obtain ⟨u, hu, free, delivers⟩ := hm.delivering ha
  refine ⟨u, hu, free, ?_⟩
  cases delivers with
  | passed passes =>
    cases passes with
    | lost e m gone => exact .inl ⟨attends_of_gone gone, rfl⟩
    | unexpected i c m caller alive unasked =>
      refine .inr ⟨c, caller, alive, ?_⟩
      simp only [deliver, caller, alive, Bool.false_eq_true, if_false, receive, unasked,
        reportUnexpected]
      split <;> rfl
    | seatless u' _ eq seat => rcases eq with eq | eq <;> cases eq
  | @answered i c m id caller alive answers =>
    refine .inr ⟨c, caller, alive, ?_⟩
    simp only [deliver, caller, alive, Bool.false_eq_true, if_false, receive, answers,
      reportUnexpected]
    cases c.pending? id with
    | none => cases c.reportsUnexpected <;> rfl
    | some p => rfl

/-- A move in which no message is delivered to a caller leaves the callers' messages as they are. -/
theorem Move.unaddressed {a b : Option TaskId × World} (hm : Move a b)
    (other : ∀ (w : World) t i m, a ≠ (some t, w.park t (.deliver (.engine (.caller i)) m)))
    (j : CallerId) : b.2.inbox j = a.2.inbox j := by
  by_cases delivers : ∃ (w : World) (t : TaskId) (l : Listener) (m : Message),
      a = (some t, w.park t (.deliver l m))
  · obtain ⟨w, t, l, m, ha⟩ := delivers
    have elsewhere : l ≠ .engine (.caller j) := by
      rintro rfl
      exact other w t j m ha
    rw [World.inbox, hm.heard ha, Job.deliveryTo?, if_neg elsewhere]
    simp [World.inbox]
  · refine hm.unheard (fun t x l m runs task job => ?_) _
    obtain ⟨w, j, rfl⟩ := hm.runs runs
    obtain rfl : x = ⟨j, false⟩ := by simpa using task.symm
    exact delivers ⟨w, t, l, m, by rw [← job]⟩

/-! ## The balance -/

namespace World

variable {u w v : World} {i j : CallerId} {c : Caller} {p : PendingCall} {m : Message}
  {o : Except Failure Payload} {t : TaskId}

/-- The messages that the caller has received are as many as its calls that have been answered and
the messages that it has reported, if it tells of unexpected messages at all. -/
structure Squares (w : World) (i : CallerId) : Prop where
  told : w.reports? i = some true →
    (w.inbox i).length = (w.answered i).card + (w.reported i).length
  untold : w.reports? i ≠ some true → w.reported i = []
  absent : w.reports? i = none → w.inbox i = [] ∧ w.answered i = ∅

theorem Docket.of_park {job : Job} (h : (w.park t job).Docket) (free : w.tasks.get? t = none)
    (never : job.watch? = none) : w.Docket :=
  h.congr rfl (fun _ => rfl) (fun _ => rfl) (fun k => (watch?_park_none free never k).symm) rfl

theorem deliver_reports? (w : World) (t : TaskId) (i : CallerId) (m : Message) (j : CallerId) :
    (w.deliver t (.engine (.caller i)) m).reports? j = w.reports? j := by
  have told (u : World) (c : Caller) : (u.reportUnexpected i c m).reports? j = u.reports? j := by
    unfold reportUnexpected
    split <;> rfl
  simp only [deliver, receive]
  split
  · rfl
  · split
    · rfl
    · split
      · exact told ..
      · split
        · exact complete_reports? ..
        · exact (told ..).trans (complete_reports? ..)

theorem deliver_inbox (caller : w.callers.get? i = some c) (here : c.seat.gone = false) (t : TaskId)
    (m : Message) : (w.deliver t (.engine (.caller i)) m).inbox i = w.inbox i ++ [m] := by
  have told (u : World) : (u.reportUnexpected i c m).inbox i = u.inbox i := by
    unfold reportUnexpected
    split <;> simp [inbox, Event.deliveredTo?]
  have ended (u : World) (id : MessageId) (cause : Cause) :
      (u.complete i id cause).inbox i = u.inbox i := by
    simp [inbox, Event.deliveredTo?]
  have heard : (w.record (.delivered (.engine (.caller i)) m)).inbox i = w.inbox i ++ [m] := by
    simp [inbox, Event.deliveredTo?]
  simp only [deliver, caller, here, Bool.false_eq_true, if_false, receive]
  split
  · exact (told _).trans heard
  · split
    · exact (ended ..).trans heard
    · exact (told _).trans ((ended ..).trans heard)

namespace Squares

theorem new (h : w.IsNew) (i : CallerId) : w.Squares i := by
  obtain ⟨wall, ids, rfl⟩ := h
  exact ⟨fun _ => rfl, fun _ => rfl, fun _ => ⟨rfl, rfl⟩⟩

theorem of_park {job : Job} (h : (w.park t job).Squares i) : w.Squares i :=
  ⟨h.told, h.untold, h.absent⟩

theorem congr (h : w.Squares i) (reports : v.reports? i = w.reports? i)
    (inbox : v.inbox i = w.inbox i) (answered : v.answered i = w.answered i)
    (reported : v.reported i = w.reported i) : v.Squares i where
  told := by rw [reports, inbox, answered, reported]; exact h.told
  untold := by rw [reports, reported]; exact h.untold
  absent := by rw [reports, inbox, answered]; exact h.absent

theorem unread (h : w.Squares i) (unread : w.Unread v) (tidy : w.Tidy) (tidy' : v.Tidy)
    (same : v.inbox i = w.inbox i) : v.Squares i := by
  have answered : v.answered i = w.answered i := Finset.ext fun k => by
    rw [mem_answered tidy', mem_answered tidy, unread.answers]
  have reported : v.reported i = w.reported i := by
    rw [World.reported, World.reported, unread.unexpected]
  cases before : w.reports? i with
  | none =>
    obtain ⟨empty, none⟩ := h.absent before
    have silent := h.untold (by simp [before])
    constructor <;> simp [same, answered, reported, empty, none, silent]
  | some r => exact h.congr ((unread.reports i r before).trans before.symm) same answered reported

/-- An answer counts once on either side. -/
theorem answers (h : w.Squares j) (answers : w.Answers v i p o) (answer : isAnswer o = true)
    (here : (w.reports? i).isSome = true) (reports : v.reports? j = w.reports? j) (tidy : w.Tidy)
    (tidy' : v.Tidy) (inbox : v.inbox j = w.inbox j ++ if i = j then [m] else []) :
    v.Squares j := by
  have reported : v.reported j = w.reported j := by
    rw [World.reported, World.reported, answers.unreported]
  obtain ⟨call, before, own, -, none, after, -⟩ := answers.place
  have fresh : w.answered? p.call = .none := by simp [answered?, account, before, none]
  have now : v.answered? p.call = some i := by simp [answered?, account, after, answer, own]
  have others : ∀ k ≠ p.call, v.answered? k = w.answered? k := fun k other =>
    answered?_congr (answers.places k other)
  by_cases hj : i = j
  · subst hj
    have grown : v.answered i = insert p.call (w.answered i) := Finset.ext fun k => by
      rw [Finset.mem_insert, mem_answered tidy', mem_answered tidy]
      by_cases hk : k = p.call
      · simp [hk, now]
      · simp [hk, others k hk]
    have anew : p.call ∉ w.answered i := by simp [mem_answered tidy, fresh]
    constructor
    case told =>
      intro told
      rw [inbox, grown, Finset.card_insert_of_notMem anew, reported, if_pos rfl, List.length_append,
        h.told (reports ▸ told), List.length_singleton, Nat.add_right_comm]
    case untold => rw [reports, reported]; exact h.untold
    case absent =>
      intro absent
      rw [← reports, absent] at here
      cases here
  · have same : v.answered j = w.answered j := Finset.ext fun k => by
      rw [mem_answered tidy', mem_answered tidy]
      by_cases hk : k = p.call
      · simp [hk, now, fresh, hj]
      · rw [others k hk]
    rw [if_neg hj, List.append_nil] at inbox
    exact h.congr reports inbox same reported

theorem ignores (h : w.Squares j) (ignores : w.Ignores v i c m)
    (caller : w.callers.get? i = some c) (tidy : w.Tidy)
    (tidy' : v.Tidy) (inbox : v.inbox j = w.inbox j ++ if i = j then [m] else []) :
    v.Squares j := by
  have reports : v.reports? j = w.reports? j := reports?_congr ignores.callers j
  have answered : v.answered j = w.answered j := Finset.ext fun k => by
    rw [mem_answered tidy', mem_answered tidy, answered?_congr (w := w) (by rw [ignores.calls])]
  have reported : v.reported j =
      w.reported j ++ if i = j then (if c.reportsUnexpected then [m] else []) else [] := by
    rw [World.reported, ignores.reported, List.filterMap_append]
    by_cases hj : i = j <;> cases c.reportsUnexpected <;> simp [World.reported, hj]
  by_cases hj : i = j
  · subst hj
    have here : w.reports? i = some c.reportsUnexpected := by simp [reports?, caller]
    constructor
    case told =>
      intro told
      rw [reports] at told
      have tells : c.reportsUnexpected = true := Option.some.inj (here.symm.trans told)
      rw [inbox, answered, reported]
      simp [h.told told, tells, Nat.add_assoc]
    case untold =>
      intro untold
      rw [reports] at untold
      have silent : c.reportsUnexpected = false :=
        Bool.eq_false_iff.mpr fun tells => untold (here.trans (congrArg some tells))
      simp [reported, h.untold untold, silent]
    case absent =>
      intro absent
      rw [reports, here] at absent
      cases absent
  · rw [if_neg hj, List.append_nil] at inbox reported
    exact h.congr reports inbox answered reported

/-- **The balance is kept** by every move. -/
theorem move {a b : Option TaskId × World} (hm : Move a b) (tidy : a.2.Tidy) (docket : a.2.Docket)
    (h : a.2.Squares j) : b.2.Squares j := by
  by_cases delivers : ∃ (w : World) (t : TaskId) (i : CallerId) (m : Message),
      a = (some t, w.park t (.deliver (.engine (.caller i)) m))
  · obtain ⟨w, t, i, m, ha⟩ := delivers
    have heard := hm.heard ha (.engine (.caller j))
    obtain ⟨u, rfl, free, ⟨deaf, hb⟩ | ⟨c, caller, here, hb⟩⟩ := hm.delivered ha
    · rw [hb]
      exact h.of_park
    · have attends : (u.park t (.deliver (.engine (.caller i)) m)).attends (.engine (.caller i)) :=
        (attends_caller caller).trans (by rw [here]; rfl)
      have inbox : b.2.inbox j = u.inbox j ++ if i = j then [m] else [] := by
        rw [World.inbox, heard, if_pos attends]
        by_cases hj : i = j <;> simp [World.inbox, Job.deliveryTo?, hj]
      have tidy' := tidy.move hm
      rw [hb] at inbox tidy' ⊢
      rcases (docket.of_park free rfl).deliver caller here t m with
        ⟨p, -, -, answers⟩ | ⟨-, ignores⟩
      · exact h.of_park.answers answers m.isAnswer_outcome (by simp [reports?, caller])
          (deliver_reports? u t i m j) tidy.unpark tidy' inbox
      · exact h.of_park.ignores ignores caller tidy.unpark tidy' inbox
  · have other : ∀ (w : World) t i m, a ≠ (some t, w.park t (.deliver (.engine (.caller i)) m)) :=
      fun w t i m ha => delivers ⟨w, t, i, m, ha⟩
    exact h.unread (hm.unread tidy docket other) tidy (tidy.move hm) (hm.unaddressed other j)

/-- **And by every act of a run.** -/
theorem kept : Kept (fun _ _ => True) fun a => a.2.Docket ∧ ∀ i, a.2.Squares i :=
  Docket.kept.add
    (fun tidy ho _ _ _ h i =>
      (h i).unread (ho.unread tidy) tidy (tidy.outset ho) (seen_outset (fun _ _ _ => rfl) ho))
    fun tidy hm docket _ h _ => (h _).move hm tidy docket

end Squares

end World

/-- **Every message to a caller is used exactly once.** Whatever a run has come to, let a caller
that is not gone receive a message. If it is a valid response to a pending call, the call is taken
out of the registry with its deadline and its timer, and has the outcome that the message brings:
its payload, or its status if that is not success; nothing is reported. Any other message changes
nothing, and is reported as unexpected if the caller tells of such messages. Either way all other
pending calls keep their entries, deadlines and timers. And over the whole run a caller that tells
of unexpected messages has received as many messages as calls of it have been answered and messages
reported; one that does not has reported none. -/
theorem messages_used_once {w : World} {as : List Act} (new : w.IsNew) (run : w.CanRun as) :
    let v := w.after as
    (∀ i c, v.callers.get? i = some c → c.seat.gone = false → ∀ t m,
      let u := v.deliver t (.engine (.caller i)) m
      u.inbox i = v.inbox i ++ [m] ∧
      (∀ p ∈ v.pendingOf i, m.attributes.isResponse = true → m.attributes.validate = .ok () →
        m.attributes.requestId = some p.id →
        ∃ o, v.Answers u i p o ∧
          (m.attributes.commStatus = none ∨ m.attributes.commStatus = some .ok →
            o = .ok (m.payload.getD .empty)) ∧
          (∀ code, m.attributes.commStatus = some code → code ≠ .ok →
            o = .error (.remote ⟨code, m.attributes.commMessage.getD ""⟩)) ∧
          ∀ j, ∀ q ∈ v.pendingOf j, ¬(i = j ∧ p = q) → v.Spares u j q) ∧
      ((∀ p ∈ v.pendingOf i, ¬(m.attributes.isResponse = true ∧
          m.attributes.validate = .ok () ∧ m.attributes.requestId = some p.id)) →
        v.Ignores u i c m ∧ ∀ j, ∀ q ∈ v.pendingOf j, v.Spares u j q)) ∧
    ∀ i, (v.reports? i = some true →
        (v.inbox i).length = (v.answered i).card + (v.reported i).length) ∧
      (v.reports? i ≠ some true → v.reported i = []) := by
  intro v
  have known : Along (fun _ _ => True) w as := run.mono fun _ _ _ => trivial
  obtain ⟨-, docket, squares⟩ := Squares.kept.run run known (.new new) ⟨.new new, Squares.new new⟩
  refine ⟨fun i c caller here t m => ?_, fun i => ⟨(squares i).told, (squares i).untold⟩⟩
  refine ⟨deliver_inbox caller here t m, fun p pends response valid requestId => ?_, fun none => ?_⟩
  · have answers := Message.answers?_iff.mpr ⟨response, valid, requestId⟩
    rcases docket.deliver caller here t m with ⟨q, pends', own, answered⟩ | ⟨none, -⟩
    · cases docket.eq_of_id pends pends' (Option.some.inj (answers.symm.trans own))
      exact ⟨m.outcome, answered, Message.outcome_of_success,
        fun code status failure => Message.outcome_of_failure status failure,
        fun j q pends' other => answered.spares docket pends pends' other⟩
    · exact absurd answers (none p pends)
  · rcases docket.deliver caller here t m with ⟨p, pends, answers, -⟩ | ⟨-, ignored⟩
    · exact absurd (Message.answers?_iff.mp answers) (none p pends)
    · exact ⟨ignored, fun j q pends => ignored.spares pends⟩

/-- A caller has one call pending. It receives a message that answers nothing, which it reports,
and then the response to its call. -/
theorem stray_message_and_answer :
    let ids : MessageId.Source := { issue := fun n => .stamped 1 (BitVec.ofNat 74 n) }
    let method : Address := ⟨"server", 2, 1, 1⟩
    let answer : Message :=
      ⟨{ id := some (ids.issue 7), kind := .response, source := some method,
         sink := some ⟨"client", 1, 1, 0⟩, priority := .interactive,
         requestId := some (ids.issue 0) }, none⟩
    let stray : Message := ⟨{ kind := .publish }, some (.ofText "news")⟩
    let w : World := { wall := 0, ids := ids }
    let as : List Act := [.command (.addLink ⟨"client", 1, 1, 0⟩), .command (.addCaller 0 true),
      .command (.invoke 0 method none .standard)]
    let bs : List Act := [.inbound (.engine (.caller 0)) stray,
      .inbound (.engine (.caller 0)) answer, .turn 2, .turn 3]
    w.IsNew ∧ w.CanRun as ∧ w.CanRun (as ++ bs) ∧
      (∃ c, (w.after as).Ignores ((w.after as).deliver 2 (.engine (.caller 0)) stray) 0 c stray) ∧
      (∃ p, (w.after as).Answers ((w.after as).deliver 3 (.engine (.caller 0)) answer) 0 p
        (.ok .empty)) ∧
      (w.after (as ++ bs)).inbox 0 = [stray, answer] ∧
      ((w.after (as ++ bs)).inbox 0).length = ((w.after (as ++ bs)).answered 0).card +
        ((w.after (as ++ bs)).reported 0).length := by
  intro ids method answer stray w as bs
  have new : w.IsNew := ⟨0, ids, rfl⟩
  have run : w.CanRun as := by decide +kernel
  have run' : w.CanRun (as ++ bs) := by decide +kernel
  obtain ⟨c, caller⟩ : ∃ c, (w.after as).callers.get? 0 = some c :=
    Option.isSome_iff_exists.mp (by decide +kernel)
  have here : c.seat.gone = false := by
    have : ((w.after as).callers.get? 0).all (!·.seat.gone) = true := by decide +kernel
    simpa [caller] using this
  have single := (messages_used_once new run).1 0 c caller here
  refine ⟨new, run, run', ⟨c, ((single 2 stray).2.2 fun p _ h => ?_).1⟩, ?_, by decide +kernel,
    ((messages_used_once new run').2 0).1 (by decide +kernel)⟩
  · exact absurd h.1 (by decide)
  · have first : (⟨ids.issue 0, 0, 0⟩ : PendingCall) ∈ (w.after as).pendingOf 0 := by
      decide +kernel
    obtain ⟨o, answers, success, -⟩ := (single 3 answer).2.1 _ first rfl (by decide +kernel) rfl
    exact ⟨_, success (.inl rfl) ▸ answers⟩

end Switchboard
