import Switchboard.Proofs.Deliveries
import Switchboard.Proofs.EndToEnd
import Switchboard.Proofs.Inbox
import Switchboard.Proofs.Outcomes

/-! # Who waits for a call is told its outcome

A task that makes a call waits in the place of the call, and whatever fills the place wakes it. So
once the call has ended the task is ready or has been told what ended it (`World.Redeeming`),
provided that nobody else asks for the outcome and takes its place. Main statement:
`Redeeming.move`.
-/

namespace Switchboard

open World History

def Job.awaits? : Job → Option CallId
  | .await k _ => some k
  | .start (.await k) => some k
  | _ => none

def Act.awaits? : Act → Option CallId
  | .command (.enter (.await k)) => some k
  | .command (.spawn (.await k)) => some k
  | _ => none

theorem Leads.awaits? {w : World} {t : TaskId} {j j' : Job} {k : CallId} (h : Leads w t j j')
    (awaits : j'.awaits? = some k) : j.awaits? = some k ∨ ∃ i method payload options,
      j = .start (.call i method (.ok payload) options) ∧ j' = .await k (some i) := by
  cases h with
  | startAwait k' => exact .inl awaits
  | await i method payload options k' =>
    cases awaits
    exact .inr ⟨i, method, payload, options, rfl, rfl⟩
  | _ => cases awaits

/-- Who asks for the outcome of a call has asked before, or has just made it. -/
theorem Move.asksFor {a b : Option TaskId × World} (hm : Move a b) (tidy : a.2.Tidy) {t : TaskId}
    {x : Task} {k : CallId} (task : b.2.tasks.get? t = some x) (awaits : x.job.awaits? = some k) :
    (∃ y, a.2.tasks.get? t = some y ∧ y.job.awaits? = some k) ∨
      a.1 = some t ∧ k = a.2.calls.next ∧ ∃ call, b.2.calls.get? k = some call := by
  rcases hm.lineage tidy task with ⟨y, hy, same⟩ | ⟨w, j, ha, leads, -⟩ | ⟨-, begins, new⟩
  · exact .inl ⟨y, hy, same ▸ awaits⟩
  · rcases leads.awaits? awaits with before | ⟨i, method, payload, options, rfl, job⟩
    · exact .inl ⟨⟨j, false⟩, by rw [ha]; exact park_self .., before⟩
    · obtain ⟨u, rfl, free, made⟩ := hm.calling ha
      rcases invoke_cases u i method payload options with
        ⟨e, he⟩ | ⟨e, he⟩ | ⟨c, m, -, -, -, -, he⟩
      all_goals rcases made with ⟨accepted, v, invoked, rfl⟩ | ⟨e', v, invoked, rfl⟩
      all_goals cases he.symm.trans invoked
      · cases free.symm.trans task
      · cases free.symm.trans task
      · cases (park_self ..).symm.trans task
        cases awaits
        exact .inr ⟨by rw [ha], rfl, by simp⟩
  · have job : x.job = .start (.await k) := by
      cases h : x.job with
      | start o => cases o <;> simp_all [Job.awaits?]
      | _ => simp_all [Job.awaits?, Job.begins]
    rw [job] at new
    rcases new with ⟨w, t', j, ha, leads⟩ | ⟨e, p, -, -, -, -, withdraw⟩
    · cases leads
    · cases withdraw

/-- At the outset of an act, who asks for an outcome has asked before, or the act asks for it. -/
theorem Outset.asksFor {w : World} {a : Act} {b : Option TaskId × World} (ho : Outset w a b)
    {t : TaskId} {x : Task} {k : CallId} (task : b.2.tasks.get? t = some x)
    (awaits : x.job.awaits? = some k) : w.tasks.get? t = some x ∨ a.awaits? = some k := by
  rcases ho.lineage task with old | ⟨-, begins, ⟨o, start, job⟩ | ⟨l, m, -, job⟩ |
    ⟨i, method, payload, options, -, job | ⟨c, m, -, -, -, job⟩⟩⟩
  · exact .inl old
  · rw [job] at awaits
    right
    cases o with
    | await k' => rcases start with rfl | rfl <;> exact awaits
    | _ => cases awaits
  all_goals rw [job] at awaits; cases awaits

theorem World.resolution?_eq (w : World) (t : TaskId) :
    w.resolution? t = (w.seen (Event.toldTo t)).getLast? := by
  rw [seen, List.filterMap_reverse, List.getLast?_reverse, List.head?_filterMap, resolution?]
  congr
  funext e
  obtain ⟨τ, e⟩ := e
  cases e <;> rfl

theorem AfterSend.untold (t k : TaskId) (r : Except Status Unit) (after : AfterSend) :
    (after.events k r).filterMap (Event.toldTo t) = [] := by
  cases after <;> rfl

theorem AfterUnregister.untold (t k : TaskId) (r : Except Status Unit) (after : AfterUnregister) :
    (after.events k r).filterMap (Event.toldTo t) = [] := by
  cases after <;> rfl

theorem World.onward_untold (w : World) (t k : TaskId) (u : Use) :
    (w.onward k u).1.filterMap (Event.toldTo t) = [] := by
  cases u with
  | request i id m =>
    simp only [onward]
    split <;> rfl
  | serve s method h => rfl

theorem Passes.untold {w : World} {k t : TaskId} {j : Job} {es : List Event} {next : Option Job}
    (h : Passes w k j es next) (other : k ≠ t) : es.filterMap (Event.toldTo t) = [] := by
  cases h with
  | unexpected i c m caller alive unasked => cases c.reportsUnexpected <;> rfl
  | useAtOnce u registered => exact w.onward_untold ..
  | use u registered => exact w.onward_untold ..
  | sendRefused l m after s refusal other => exact after.untold ..
  | unregisterRefused l source sink listener after s refusal => exact after.untold ..
  | resolved c held call o place outcome => simp [Event.toldTo, other]
  | callUnencodable i method e options => simp [Event.toldTo, other]
  | _ => rfl

/-- A task is told an outcome only while it runs. -/
theorem Move.untold {a b : Option TaskId × World} (hm : Move a b) {t : TaskId}
    (idle : a.1 ≠ some t) : b.2.seen (Event.toldTo t) = a.2.seen (Event.toldTo t) := by
  have silent : ∀ (i : CallerId) (id : MessageId) (timeout : Duration),
      Event.toldTo t (.accepted i id timeout) = none := fun _ _ _ => rfl
  cases hm with
  | remove seat unowned alive unheld => exact seen_congr (by simp)
  | pass free passes => simp [passes.untold fun own => idle (own ▸ rfl)]
  | doze free dozes => rfl
  | rest free => rfl
  | arm free => rfl
  | @answered w t' i c m id free caller alive answers =>
    have told : (if (c.pending? id).isNone && c.reportsUnexpected then [Event.unexpected i m]
        else []).filterMap (Event.toldTo t) = [] := by
      split <;> rfl
    rw [recordAll_seen, told]
    simp [Event.toldTo]
  | reply free server replies finish => cases replies <;> simp [Event.toldTo]
  | mute free server replies finish => cases replies <;> simp [Event.toldTo]
  | enrol free registration => simp [onward_untold, Event.toldTo]
  | @unlist w t' l source sink listener after hub free unregistration => simp [after.untold]
  | @broadcast w t' l m after free accepted => simp [after.untold]
  | await free place pending => rfl
  | @call w v t' i method payload options accepted free invoked =>
    have same := invoke_seen w silent i method payload options
    rw [invoked] at same
    simpa using same
  | @callRefused w v t' i method payload options e free invoked =>
    have same := invoke_seen w silent i method payload options
    have other : t' ≠ t := fun own => idle (own ▸ rfl)
    rw [invoked] at same
    simpa [Event.toldTo, other] using same
  | _ => simp [Event.toldTo]

/-! ## Waiting in the place of a call -/

namespace World

variable {w v : World} {a b : Option TaskId × World} {k : CallId} {t : TaskId}

/-- The task waits in the place of the call, or is ready since the call has come to an outcome. -/
def Expects (w : World) (k : CallId) (t : TaskId) : Prop :=
  ∃ call, w.calls.get? k = some call ∧ (call.outcome = none → call.waiter = some t) ∧
    (call.outcome ≠ none → t ∈ w.ready)

theorem Expects.of_same (h : w.Expects k t) (calls : v.calls = w.calls)
    (ready : t ∈ w.ready → t ∈ v.ready) : v.Expects k t := by
  obtain ⟨call, hk, waits, woken⟩ := h
  exact ⟨call, calls ▸ hk, waits, fun some => ready (woken some)⟩

theorem Expects.resolve (h : w.Expects k t) (k' : CallId) (o : Except Failure Payload) :
    (w.resolve k' o).Expects k t := by
  obtain ⟨call, hk, waits, woken⟩ := h
  have stays : t ∈ w.ready → t ∈ (w.resolve k' o).ready :=
    (joins_resolve (S := fun _ => True) w k' o fun _ _ _ _ => trivial).keeps
  by_cases own : k = k'
  · subst own
    refine ⟨{ call with outcome := some o, waiter := none }, by simp [hk], by simp, fun _ => ?_⟩
    cases outcome : call.outcome with
    | none => exact resolve_wakes hk (waits outcome) o
    | some o' => exact stays (woken (by simp [outcome]))
  · exact ⟨call, by simp [own, hk], waits, fun some => stays (woken some)⟩

theorem Expects.complete (h : w.Expects k t) (i : CallerId) (id : MessageId) (cause : Cause) :
    (w.complete i id cause).Expects k t := by
  cases pending : (w.callers.get? i).bind (·.pending? id) with
  | none => exact complete_of_none pending cause ▸ h.of_same rfl fun ready => ready
  | some p =>
    rw [complete_of_some pending]
    refine Expects.resolve (h.of_same (by simp) fun ready => ?_) ..
    exact (joins_cancel (S := fun _ => True) _ trivial).keeps ready

theorem Expects.resolveAll (h : w.Expects k t) (ps : List PendingCall)
    (o : Except Failure Payload) : (ps.foldl (fun w p => w.resolve p.call o) w).Expects k t := by
  induction ps generalizing w with
  | nil => exact h
  | cons p ps ih => exact ih (h.resolve ..)

theorem Expects.abandon (h : w.Expects k t) (i : CallerId) : (w.abandon i).Expects k t := by
  unfold World.abandon
  split
  · exact h
  · exact Expects.resolveAll (w := w.modifyCaller i _) (h.of_same rfl fun ready => ready) ..

theorem Expects.remove (h : w.Expects k t) (e : EngineId) (p : Seat) (side : Side) :
    (w.remove e p side).Expects k t := by
  have gone : (w.modifySeat (fun p => { p with gone := true }) e).Expects k t :=
    h.of_same (by simp) (by simp)
  have started : ∀ (u : World) (j : Job), u.Expects k t → (u.spawn j).2.Expects k t :=
    fun u j hu => hu.of_same rfl (List.mem_append_left _)
  unfold World.remove
  cases e with
  | caller j =>
    dsimp only
    split
    · exact started _ _ (gone.abandon j)
    · exact gone.abandon j
  | server s =>
    dsimp only
    split
    · exact started _ _ gone
    · exact gone

theorem Expects.invoke (h : w.Expects k t) (tidy : w.Tidy) (i : CallerId) (method : Address)
    (payload : Option Payload) (options : CallOptions)
    (ready : t ∈ w.ready → t ∈ (w.invoke i method payload options).2.ready) :
    (w.invoke i method payload options).2.Expects k t := by
  rcases invoke_cases w i method payload options with
    ⟨e, he⟩ | ⟨e, he⟩ | ⟨c, m, -, -, -, -, he⟩ <;> rw [he] at ready ⊢
  · exact h
  · exact h
  · obtain ⟨call, hk, waits, woken⟩ := h
    refine ⟨call, ?_, waits, fun some => ready (woken some)⟩
    simpa [Nat.ne_of_lt (tidy.calls.lt hk)] using hk

/-- Nobody but the task asks for the outcome of the call. -/
def Sole (w : World) (k : CallId) (t : TaskId) : Prop :=
  ∀ t' x, w.tasks.get? t' = some x → x.job.awaits? = some k → t' = t

/-- A task that does not run keeps its place if nobody else asks for the outcome. -/
theorem Expects.move (h : a.2.Expects k t) (hm : Move a b) (tidy : a.2.Tidy) (turn : InTurn a)
    (sole : a.2.Sole k t) (idle : a.1 ≠ some t) : b.2.Expects k t := by
  obtain ⟨ks, joined, -⟩ := joins_move hm turn
  have ready : t ∈ a.2.ready → t ∈ b.2.ready := fun ready => joined ▸ List.mem_append_left _ ready
  cases hm with
  | remove seat unowned alive unheld => exact h.remove ..
  | @expire w t' i id timeout free => exact Expects.complete (w := w) h ..
  | @answered w t' i c m id free caller alive answers =>
    have ended := Expects.complete (w := w.record (.delivered (.engine (.caller i)) m)) h i id
      (.answered m)
    exact ended.of_same (by simp) (by simp)
  | @refuse w t' l m i id s free refusal => exact Expects.complete (w := w) h ..
  | @failRequest w t' r i id m s free refusal =>
    have settled : ((w.record (.attempted (.caller i) (.error s))).settleCell (.caller i)
        (.error s)).Expects k t := by
      refine Expects.of_same (w := w) h (by simp) fun ready => ?_
      exact (joins_settleCell (S := fun _ => True) _ _ _ fun _ _ _ _ _ => trivial).keeps ready
    exact settled.complete ..
  | @await w t' k' held call free place pending =>
    have other : k ≠ k' := by
      rintro rfl
      exact idle (congrArg some (sole t' _ (park_self ..) rfl))
    obtain ⟨call', hk, waits, woken⟩ := h
    exact ⟨call', by simpa [other] using hk, waits, woken⟩
  | @call w v t' i method payload options accepted free invoked =>
    have made := Expects.invoke (w := w) h tidy.unpark i method payload options
    rw [invoked] at made
    exact made ready
  | @callRefused w v t' i method payload options e free invoked =>
    have made := Expects.invoke (w := w) h tidy.unpark i method payload options
    rw [invoked] at made
    exact made ready
  | _ => exact h.of_same (by simp) ready

theorem Expects.outset {act : Act} (h : w.Expects k t) (ho : Outset w act b) (tidy : w.Tidy)
    (turn : InTurn (none, w)) (idle : act ≠ .turn t) : b.2.Expects k t := by
  obtain ⟨q, ks, left, joined, -⟩ := joins_outset ho turn
  have ready : t ∈ w.ready → t ∈ b.2.ready := by
    intro ready
    rw [joined]
    refine List.mem_append_left _ ?_
    rcases left with ⟨-, rfl⟩ | ⟨t', rfl, rfl⟩
    · exact ready
    · exact (List.mem_erase_of_ne fun same => idle (by rw [same])).mpr ready
  cases ho with
  | invoke i method payload options owned => exact h.invoke tidy i method payload options ready
  | drop e side owned => exact h.of_same (by simp) ready
  | hold e owned => exact h.of_same (by simp [World.hold]) ready
  | fire due next => exact h.of_same (by simp [World.fire]) ready
  | _ => exact h.of_same rfl ready

/-- Nobody asks for the outcome of a call that has not been made. -/
def Unsought (w : World) (k : CallId) : Prop :=
  w.calls.get? k = none → ∀ t x, w.tasks.get? t = some x → x.job.awaits? ≠ some k

theorem Unsought.new (h : w.IsNew) (k : CallId) : w.Unsought k := by
  obtain ⟨wall, ids, rfl⟩ := h
  intro _ t x task
  cases task

theorem Unsought.move (h : a.2.Unsought k) (hm : Move a b) (tidy : a.2.Tidy) : b.2.Unsought k := by
  intro none t x task awaits
  rcases hm.asksFor tidy task awaits with ⟨y, before, awaits⟩ | ⟨-, -, call, place⟩
  · refine h (Option.eq_none_iff_forall_ne_some.mpr fun call place => ?_) t y before awaits
    obtain ⟨call', place', -⟩ := Places.move hm tidy ⟨call, place, rfl, rfl⟩
    cases none.symm.trans place'
  · cases none.symm.trans place

theorem Unsought.outset {act : Act} (h : w.Unsought k) (ho : Outset w act b) (tidy : w.Tidy)
    (others : act.awaits? ≠ some k) : b.2.Unsought k := by
  intro none t x task awaits
  refine h (Option.eq_none_iff_forall_ne_some.mpr fun call place => ?_) t x
    ((ho.asksFor task awaits).resolve_right others) awaits
  obtain ⟨call', place', -⟩ := Places.outset ⟨call, place, rfl, rfl⟩ ho tidy
  cases none.symm.trans place'

theorem Unsought.kept (k : CallId) :
    Kept (fun _ act => act.awaits? ≠ some k) fun a => a.2.Unsought k where
  outset tidy ho others h := h.outset ho tidy others
  move tidy hm h := h.move hm tidy

/-- Once the call has its place, only who has asked for its outcome asks. -/
theorem Sole.move (h : a.2.Sole k t) (hm : Move a b) (tidy : a.2.Tidy) {i : CallerId}
    {id : MessageId} (place : a.2.Places k i id) : b.2.Sole k t := by
  intro t' x task awaits
  rcases hm.asksFor tidy task awaits with ⟨y, before, awaits⟩ | ⟨-, new, -⟩
  · exact h t' y before awaits
  · obtain ⟨call, here, -⟩ := place
    exact absurd new (Nat.ne_of_lt (tidy.calls.lt here))

theorem Sole.outset {act : Act} (h : w.Sole k t) (ho : Outset w act b)
    (others : act.awaits? ≠ some k) : b.2.Sole k t :=
  fun t' x task awaits => h t' x ((ho.asksFor task awaits).resolve_right others) awaits

/-! ## The way to the outcome -/

/-- How far a task is on its way to the outcome of a call: it looks for the outcome, or waits in
the place of the call, or is over and has been told what ended the call. -/
inductive Redeeming (a : Option TaskId × World) (i : CallerId) (id : MessageId) (k : CallId)
    (t : TaskId) : Prop
  | asks (held : Option CallerId) (runs : a.1 = some t)
      (task : a.2.tasks.get? t = some ⟨.await k held, false⟩)
  | waits (held : Option CallerId) (idle : a.1 ≠ some t)
      (task : a.2.tasks.get? t = some ⟨.await k held, false⟩) (expects : a.2.Expects k t)
  | told (cause : Cause) (idle : a.1 ≠ some t) (past : a.2.KeepsTo (fun _ => False) t)
      (ended : ending? i id a.2.events = some cause)
      (outcome : a.2.resolution? t = some cause.outcome)

/-- What stands in the place of a call is what its ending has made of it. -/
theorem Ledger.cause (h : w.Ledger none) {i : CallerId} {id : MessageId} (place : w.Places k i id)
    {call : Call} {o : Except Failure Payload} (here : w.calls.get? k = some call)
    (outcome : call.outcome = some o) :
    ∃ cause, ending? i id w.events = some cause ∧ cause.outcome = o := by
  obtain ⟨call', here', rfl, rfl⟩ := place
  cases here.symm.trans here'
  exact Option.map_eq_some_iff.mp ((h.outcomes k call here).2.symm.trans outcome)

/-- Who looks for the outcome waits for it then, or is told it. -/
theorem redeeming_of_asks {held : Option CallerId} {i : CallerId} {id : MessageId}
    (hm : Move a b) (tidy : a.2.Tidy) (ledger : a.2.Ledger none) (place : a.2.Places k i id)
    (runs : a.1 = some t) (task : a.2.tasks.get? t = some ⟨.await k held, false⟩) :
    Redeeming b i id k t := by
  obtain ⟨u, ha⟩ := hm.parked runs task
  have lt := tidy.tasks.lt task
  cases hm with
  | remove seat unowned alive unheld => cases ha
  | @pass w t' j es next free passes =>
    obtain ⟨rfl, rfl⟩ := running_inj ha
    cases passes with
    | seatless u _ eq seat => rcases eq with eq | eq <;> cases eq
    | callless k held none =>
      obtain ⟨call, here, -⟩ := place
      cases none.symm.trans here
    | resolved k held call o here outcome =>
      obtain ⟨cause, ended, rfl⟩ := ledger.cause place here outcome
      refine .told cause (by simp) ⟨lt, fun x task => ?_⟩ ?_ ?_
      · cases free.symm.trans task
      · exact ending?_suffix (List.suffix_cons ..) ended
      · simp [resolution?_eq, Event.toldTo]
  | @await w t' k' held' call' free place pending =>
    obtain ⟨rfl, job⟩ := running_inj ha
    cases job
    refine .waits held (by simp) (park_self ..) ⟨{ call' with waiter := some t' }, by simp,
      fun _ => rfl, fun some => absurd pending some⟩
  | doze free dozes =>
    obtain ⟨-, rfl⟩ := running_inj ha
    cases dozes
  | reply free server replies finish =>
    obtain ⟨-, rfl⟩ := running_inj ha
    cases replies
  | mute free server replies finish =>
    obtain ⟨-, rfl⟩ := running_inj ha
    cases replies
  | _ =>
    obtain ⟨-, he⟩ := running_inj ha
    cases he

/-- A move brings the task on its way, or leaves it where it is. -/
theorem Redeeming.move {i : CallerId} {id : MessageId} (h : Redeeming a i id k t) (hm : Move a b)
    (tidy : a.2.Tidy) (turn : InTurn a) (ledger : a.2.Ledger none) (place : a.2.Places k i id)
    (sole : a.2.Sole k t) : Redeeming b i id k t := by
  cases h with
  | asks held runs task => exact redeeming_of_asks hm tidy ledger place runs task
  | waits held idle task expects =>
    exact .waits held (fun goes => idle (hm.ran goes)) (turn.wakeful.keeps hm tidy task idle rfl)
      (expects.move hm tidy turn sole idle)
  | told cause idle past ended outcome =>
    refine .told cause (fun goes => idle (hm.ran goes)) ?_ (ending?_suffix hm.grows.events ended) ?_
    · exact past.move hm tidy fun _ _ _ _ _ _ never => never
    · rw [resolution?_eq, hm.untold idle, ← resolution?_eq, outcome]

theorem Redeeming.outset {act : Act} {i : CallerId} {id : MessageId}
    (h : Redeeming (none, w) i id k t) (ho : Outset w act b) (tidy : w.Tidy)
    (turn : InTurn (none, w)) : Redeeming b i id k t := by
  cases h with
  | asks held runs task => cases runs
  | waits held idle task expects =>
    by_cases taken : act = .turn t
    · obtain ⟨runs, hand⟩ := turn?_of_outset ho
      have own : w.turn? act = some (t, .await k held) := by simp [taken, turn?, task]
      exact .asks held (by rw [runs, own]; rfl) (hand _ _ own)
    · exact .waits held (fun runs => taken (ho.turn tidy task runs))
        (ho.keeps_other tidy task taken) (expects.outset ho tidy turn taken)
  | told cause idle past ended outcome =>
    refine .told cause (fun runs => ?_) (past.outset ho)
      (ending?_suffix (ho.grows tidy).events ended) ?_
    · obtain ⟨own, hand⟩ := turn?_of_outset ho
      obtain ⟨⟨t', j⟩, taken, rfl⟩ := Option.map_eq_some_iff.mp (own.symm.trans runs)
      exact (past.outset ho).2 _ (hand _ _ taken)
    · rw [resolution?_eq, seen_outset (fun _ _ _ => rfl) ho, ← resolution?_eq, outcome]

/-- A task that waits for the outcome of a call, and nobody else does, is on its way to it after
every act that does not ask for the outcome. -/
theorem Redeeming.kept (i : CallerId) (id : MessageId) (k : CallId) (t : TaskId) :
    Kept (fun _ act => act.awaits? ≠ some k) fun a =>
      ((InTurn a ∧ a.2.Places k i id) ∧ a.2.Sole k t) ∧
        (a.2.ids.Distinct → a.2.Ledger none ∧ Redeeming a i id k t) := by
  have base : Kept (fun _ act => act.awaits? ≠ some k) fun a =>
      (InTurn a ∧ a.2.Places k i id) ∧ a.2.Sole k t :=
    ((InTurn.kept.mono fun _ _ _ => trivial).add (fun tidy ho _ _ _ h => h.outset ho tidy)
      fun tidy hm _ _ h => h.move hm tidy).add (fun _ ho others _ _ h => h.outset ho others)
      fun tidy hm before _ h => h.move hm tidy before.2
  refine base.add (fun tidy ho _ before _ h distinct => ?_) fun tidy hm before _ h distinct => ?_
  · obtain ⟨ledger, redeeming⟩ := h ((ho.grows tidy).distinct distinct)
    exact ⟨ledger.outset ho tidy distinct, redeeming.outset ho tidy before.1.1⟩
  · obtain ⟨ledger, redeeming⟩ := h (hm.grows.distinct distinct)
    exact ⟨ledger.move hm tidy distinct,
      redeeming.move hm tidy before.1.1 ledger before.1.2 before.2⟩

/-- **Who waits for a call is told its outcome.** Once the call has ended, the task is ready to look
for the outcome, or has been told it. -/
theorem Redeeming.resolution {i : CallerId} {id : MessageId} (h : Redeeming (none, w) i id k t)
    (ledger : w.Ledger none) (place : w.Places k i id) {cause : Cause}
    (ended : ending? i id w.events = some cause) (asleep : t ∉ w.ready) :
    w.resolution? t = some cause.outcome := by
  cases h with
  | asks held runs task => cases runs
  | waits held idle task expects =>
    obtain ⟨call, here, -, woken⟩ := expects
    obtain ⟨call', here', rfl, rfl⟩ := place
    cases here.symm.trans here'
    refine absurd (woken ?_) asleep
    rw [(ledger.outcomes k call here).2, ended]
    simp
  | told cause' idle past ended' outcome =>
    cases ended.symm.trans ended'
    exact outcome

end World

end Switchboard
