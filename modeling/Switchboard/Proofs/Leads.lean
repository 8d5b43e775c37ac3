import Switchboard.Proofs.Jobs

/-! # Which job leads to which

A task works through one job after the other, and starts other tasks on the way.
`Leads` says once which jobs come from which, so an invariant of the jobs of a
world is shown by one case for each. Main statements: a move brings no other jobs
(`Move.leads`), and a task that goes on has gone on to one of them (`Move.goes`).
-/

namespace Switchboard

open World

/-- The job of the running task leads to another job, of this task or of a new one. -/
inductive Leads (w : World) (t : TaskId) : Job → Job → Prop
  | served (s : ServerId) (v : Server) (h : Handler) (m : Message)
      (server : w.servers.get? s = some v) (alive : v.seat.gone = false)
      (judged : v.judge w.wall m = .served h) :
    Leads w t (.deliver (.engine (.server s)) m) (.handle s h m)
  /-- The listener for the answer is registered, so the request is sent. -/
  | request (j : Job) (i : CallerId) (c : Caller) (id : MessageId) (m : Message)
      (use : j.use? = some (.request i id m)) (caller : w.callers.get? i = some c)
      (listening : w.cell? (.caller i) = some .registered ∨
        ∃ r hub, j = .register r.owner r.source r.sink r.listener (.use (.request i id m)) ∧
          w.registration r = .ok hub) :
    Leads w t j (.send c.seat.link m (.request i id))
  | attempt (j : Job) (u : Use) (p : Seat) (use : j.use? = some u)
      (seat : w.seat? u.engine = some p) :
    Leads w t j (.register p.link Address.any (some p.sink) (.engine u.engine) (.use u))
  | wait (u : Use) : Leads w t (.prepare u) (.resume u)
  | withdraw (l : LinkId) (sink : Address) (e : EngineId) :
    Leads w t (.withdraw l sink e) (.unregister l Address.any (some sink) (.engine e) .nothing)
  | startSend (l : LinkId) (m : Message) :
    Leads w t (.start (.send l m)) (.send l m (.report .plain))
  | startRegister (l : LinkId) (source : Address) (sink : Option Address) (key : Nat)
      (r : Report) :
    Leads w t (.start (.register l source sink key r))
      (.register l source sink (.plain key) (.report r))
  | startUnregister (l : LinkId) (source : Address) (sink : Option Address) (key : Nat)
      (r : Report) :
    Leads w t (.start (.unregister l source sink key r))
      (.unregister l source sink (.plain key) (.report r))
  | startAwait (k : CallId) : Leads w t (.start (.await k)) (.await k none)
  | rest (ms : Nat) : Leads w t (.start (.rest ms)) .rest
  | arm (i : CallerId) (id : MessageId) (timeout : Duration) :
    Leads w t (.deadline i id timeout) (.expire i id timeout)
  | reply (s : ServerId) (v : Server) (m a : Message) (j : Job) (es : List Event) (draft : Draft)
      (payload : Option Payload) (server : w.servers.get? s = some v)
      (replies : Replies w s m j es draft payload)
      (finish : draft.finish w.mint.1 payload = .ok a) :
    Leads w t j (.send v.seat.link a (.answer s))
  | broadcast (l : LinkId) (m : Message) (after : AfterSend) (listener : Listener)
      (accepted : w.refusal? l .send = none) (recipient : listener ∈ w.hub.recipients m) :
    Leads w t (.send l m after) (.deliver listener m)
  | addHandler (s : ServerId) (v : Server) (method : Address) (h : Handler)
      (server : w.servers.get? s = some v) (vacant : v.checkVacant method = .ok ()) :
    Leads w t (.start (.serve s method h)) (.prepare (.serve s method h))
  | close (e : EngineId) (p : Seat) (seat : w.seat? e = some p) (opened : p.closed = false)
      (registered : p.cell = .registered) :
    Leads w t (.start (.close e))
      (.unregister p.link Address.any (some p.sink) (.engine e) (.report .listening))
  | post (o : Operation) (l : LinkId) (resource : UInt16) (draft : Address → Draft)
      (payload : Option Payload) (options : SendOptions) (topic : Address) (m : Message)
      (posting : o.posting? = some (l, resource, draft, payload, options))
      (finish : (options.apply (draft topic)).finish w.mint.1 payload = .ok m) :
    Leads w t (.start o) (.send l m (.report .sending))
  | await (i : CallerId) (method : Address) (payload : Option Payload) (options : CallOptions)
      (k : CallId) :
    Leads w t (.start (.call i method (.ok payload) options)) (.await k (some i))
  | deadline (i : CallerId) (method : Address) (payload : Option Payload) (options : CallOptions) :
    Leads w t (.start (.call i method (.ok payload) options))
      (.deadline i w.mint.1 options.timeout)
  | call (i : CallerId) (c : Caller) (method : Address) (payload : Option Payload)
      (options : CallOptions) (m : Message) (caller : w.callers.get? i = some c)
      (finish : (c.draft method options w.mint.1).finish w.mint.1 payload = .ok m)
      (minted : (w.invoke i method payload options).2.ids = w.mint.2.ids) :
    Leads w t (.start (.call i method (.ok payload) options))
      (.prepare (.request i w.mint.1 m))

namespace Leads

variable {w : World} {t : TaskId} {j j' : Job}

theorem of_onward {u : Use} (use : j.use? = some u) (next : (w.onward t u).2 = some j')
    (listening : w.cell? u.engine = some .registered ∨
      ∃ r hub, j = .register r.owner r.source r.sink r.listener (.use u) ∧
        w.registration r = .ok hub) : Leads w t j j' := by
  cases u with
  | request i id m =>
    simp only [onward] at next
    split at next
    · cases next
    · rename_i c caller
      cases next
      exact .request j i c id m use caller listening
  | serve s method h => cases next

theorem of_passes {es : List Event} (h : Passes w t j es (some j')) : Leads w t j j' := by
  generalize hn : some j' = next at h
  cases h with
  | served s v h m server alive judged =>
    cases hn
    exact .served s v h m server alive judged
  | useAtOnce u registered => exact of_onward rfl hn.symm (.inl registered)
  | use u registered => exact of_onward rfl hn.symm (.inl registered)
  | attempt u p seat unregistered =>
    cases hn
    exact .attempt _ u p rfl seat
  | withdraw l sink e =>
    cases hn
    exact .withdraw l sink e
  | startSend l m =>
    cases hn
    exact .startSend l m
  | startRegister l source sink key r =>
    cases hn
    exact .startRegister l source sink key r
  | startUnregister l source sink key r =>
    cases hn
    exact .startUnregister l source sink key r
  | startAwait k =>
    cases hn
    exact .startAwait k
  | _ => cases hn

end Leads

theorem World.onward_ne_deliver (w : World) (t : TaskId) (u : Use) (l : Listener) (m : Message) :
    (w.onward t u).2 ≠ some (.deliver l m) := by
  cases u with
  | request i id r =>
    simp only [onward]
    split <;> simp
  | serve s method h => simp [onward]

theorem Passes.next_ne_deliver {w : World} {t : TaskId} {j : Job} {es : List Event}
    {next : Option Job} (h : Passes w t j es next) (l : Listener) (m : Message) :
    next ≠ some (.deliver l m) := by
  cases h with
  | useAtOnce u registered => exact w.onward_ne_deliver t u l m
  | use u registered => exact w.onward_ne_deliver t u l m
  | _ => simp

/-- A task that goes on after a move has gone on from its job to one that this leads to. No task
goes on to a delivery, which is always the first job of a task. -/
theorem Move.goes {a b : Option TaskId × World} (hm : Move a b) {t : TaskId} {x : Task}
    (goes : b.1 = some t) (task : b.2.tasks.get? t = some x) :
    ∃ w j, a = (some t, w.park t j) ∧ Leads w t j x.job ∧ ∀ l m, x.job ≠ .deliver l m := by
  have parked : ∀ {w : World} {t' : TaskId} {j : Job}, b = (some t', w.park t' j) →
      t' = t ∧ x.job = j :=
    fun heq => (running_task heq goes task).imp_right Eq.symm
  cases hm with
  | @pass w t' j es next free passes =>
    cases next with
    | none => cases goes
    | some next =>
      obtain ⟨ht, hx⟩ := parked rfl
      have ht : t' = t := ht
      subst ht
      refine ⟨w, j, rfl, hx ▸ .of_passes passes, fun l m hd => passes.next_ne_deliver l m ?_⟩
      rw [← hd, hx]
  | @enrol w t' r u hub free registration =>
    cases hn : (w.onward t' u).2 with
    | none =>
      rw [hn] at goes
      cases goes
    | some next =>
      rw [hn] at parked
      obtain ⟨ht, hx⟩ := parked rfl
      have ht : t' = t := ht
      subst ht
      refine ⟨w, _, rfl, hx ▸ .of_onward rfl hn (.inr ⟨r, hub, rfl, registration⟩),
        fun l m hd => ?_⟩
      exact w.onward_ne_deliver t' u l m (by rw [hn, ← hd, hx])
  | @claim w t' u p free seat vacant =>
    obtain ⟨rfl, hx⟩ := parked rfl
    exact ⟨w, _, rfl, hx ▸ .attempt _ u p rfl seat, by simp [hx]⟩
  | @addHandler w t' s v m h free server vacant =>
    obtain ⟨rfl, hx⟩ := parked rfl
    exact ⟨w, _, rfl, hx ▸ .addHandler s v m h server vacant, by simp [hx]⟩
  | @reply w t' s v m a j es draft payload free server replies finish =>
    obtain ⟨rfl, hx⟩ := parked rfl
    exact ⟨w, j, rfl, hx ▸ .reply s v m a j es draft payload server replies finish, by simp [hx]⟩
  | @closeListening w t' e p free seat opened registered =>
    obtain ⟨rfl, hx⟩ := parked rfl
    exact ⟨w, _, rfl, hx ▸ .close e p seat opened registered, by simp [hx]⟩
  | @post w t' o l resource draft payload options link topic m free posting linked onTopic finish =>
    obtain ⟨rfl, hx⟩ := parked rfl
    exact ⟨w, _, rfl, hx ▸ .post o l resource draft payload options topic m posting finish,
      by simp [hx]⟩
  | @call w v t' i method payload options accepted free invoked =>
    obtain ⟨rfl, hx⟩ := parked rfl
    exact ⟨w, _, rfl, hx ▸ .await i method payload options accepted.call, by simp [hx]⟩
  | _ => cases goes

theorem Move.runs {a b : Option TaskId × World} (hm : Move a b) {t : TaskId} (runs : a.1 = some t) :
    ∃ (w : World) (j : Job), a = (some t, w.park t j) := by
  cases hm with
  | remove seat unowned alive unheld => cases runs
  | _ =>
    cases runs
    exact ⟨_, _, rfl⟩

theorem Move.parked {a b : Option TaskId × World} (hm : Move a b) {t : TaskId} {j : Job}
    (runs : a.1 = some t) (task : a.2.tasks.get? t = some ⟨j, false⟩) :
    ∃ w : World, a = (some t, w.park t j) := by
  obtain ⟨w, j', rfl⟩ := hm.runs runs
  obtain rfl : j' = j := by simpa using task
  exact ⟨w, rfl⟩

/-- A task that makes a call waits for its outcome, or is told why there is none. -/
theorem Move.calling {a b : Option TaskId × World} (hm : Move a b) {w : World} {t : TaskId}
    {i : CallerId} {method : Address} {payload : Option Payload} {options : CallOptions}
    (ha : a = (some t, w.park t (.start (.call i method (.ok payload) options)))) :
    ∃ u : World, a = (some t, u.park t (.start (.call i method (.ok payload) options))) ∧
      u.tasks.get? t = none ∧
      ((∃ accepted v, u.invoke i method payload options = (.ok accepted, v) ∧
        b = (some t, v.park t (.await accepted.call (some i)))) ∨
      ∃ e v, u.invoke i method payload options = (.error e, v) ∧
        b = (none, v.record (.resolved t (.error e)))) := by
  cases hm with
  | remove seat unowned alive unheld => cases ha
  | @pass w' t' j es next free passes =>
    obtain ⟨rfl, rfl⟩ := running_inj ha
    cases passes with
    | seatless u _ eq seat => rcases eq with eq | eq <;> cases eq
    | postNowhere o l resource draft payload options posting link => cases posting
    | postOffTopic o l resource draft payload options link e posting linked offTopic =>
      cases posting
  | doze free dozes =>
    obtain ⟨-, rfl⟩ := running_inj ha
    cases dozes
  | reply free server replies finish =>
    obtain ⟨-, rfl⟩ := running_inj ha
    cases replies
  | mute free server replies finish =>
    obtain ⟨-, rfl⟩ := running_inj ha
    cases replies
  | post free posting linked onTopic finish =>
    obtain ⟨-, he⟩ := running_inj ha
    cases he
    cases posting
  | postInvalid free posting linked onTopic finish =>
    obtain ⟨-, he⟩ := running_inj ha
    cases he
    cases posting
  | @call u v t' i' method' payload' options' accepted free invoked =>
    obtain ⟨rfl, he⟩ := running_inj ha
    cases he
    exact ⟨u, rfl, free, .inl ⟨accepted, v, invoked, rfl⟩⟩
  | @callRefused u v t' i' method' payload' options' e free invoked =>
    obtain ⟨rfl, he⟩ := running_inj ha
    cases he
    exact ⟨u, rfl, free, .inr ⟨e, v, invoked, rfl⟩⟩
  | _ =>
    obtain ⟨-, he⟩ := running_inj ha
    cases he

/-- A task that makes a call takes an id for it as a command does. -/
theorem Move.ids_of_call {a b : Option TaskId × World} (hm : Move a b) {w : World} {t : TaskId}
    {i : CallerId} {method : Address} {payload : Option Payload} {options : CallOptions}
    (ha : a = (some t, w.park t (.start (.call i method (.ok payload) options)))) :
    b.2.ids = (w.invoke i method payload options).2.ids := by
  obtain ⟨u, hu, -, made⟩ := hm.calling ha
  have hw := (Prod.mk.inj (hu.symm.trans ha)).2
  have callers : u.callers = w.callers := by simpa using congrArg World.callers hw
  have ids : u.ids = w.ids := by simpa using congrArg World.ids hw
  have taken : b.2.ids = (u.invoke i method payload options).2.ids := by
    rcases made with ⟨accepted, v, invoked, rfl⟩ | ⟨e, v, invoked, rfl⟩ <;> simp [invoked]
  rw [taken, invoke_ids, invoke_ids, callers, ids, mint, mint, ids]

/-- What becomes of a message that the running task sends: it waits for its link, or this refuses
it, which ends the call whose request it is, or it goes to all its recipients. -/
inductive Forwards (w : World) (t : TaskId) (l : LinkId) (m : Message) :
    AfterSend → Option TaskId × World → Prop
  | waits {after : AfterSend} :
    Forwards w t l m after (none, w.sleep t (w.delay l .send) (.send l m after))
  | refused {after : AfterSend} {s : Status} (refusal : w.refusal? l .send = some s)
      (other : ∀ i id, after ≠ .request i id) :
    Forwards w t l m after (none, w.recordAll (after.events t (.error s)))
  | ended {i : CallerId} {id : MessageId} {s : Status} (refusal : w.refusal? l .send = some s) :
    Forwards w t l m (.request i id) (none, w.complete i id (.refused s))
  | passed {after : AfterSend} (accepts : w.refusal? l .send = none) :
    Forwards w t l m after (none, (w.broadcast m).recordAll (after.events t (.ok ())))

/-- A move of a task that sends a message gives it to the link. -/
theorem Move.sending {a b : Option TaskId × World} (hm : Move a b) {w : World} {t : TaskId}
    {l : LinkId} {m : Message} {after : AfterSend} (ha : a = (some t, w.park t (.send l m after))) :
    ∃ u : World, a = (some t, u.park t (.send l m after)) ∧ u.tasks.get? t = none ∧
      Forwards u t l m after b := by
  cases hm with
  | remove seat unowned alive unheld => cases ha
  | @pass u t' j es next free passes =>
    obtain ⟨rfl, rfl⟩ := running_inj ha
    cases passes with
    | sendRefused _ _ _ s refusal other => exact ⟨u, rfl, free, .refused refusal other⟩
    | seatless u _ eq seat => rcases eq with eq | eq <;> cases eq
  | @doze u t' j ms free dozes =>
    obtain ⟨rfl, rfl⟩ := running_inj ha
    cases dozes
    exact ⟨u, rfl, free, .waits⟩
  | reply free server replies finish =>
    obtain ⟨-, rfl⟩ := running_inj ha
    cases replies
  | mute free server replies finish =>
    obtain ⟨-, rfl⟩ := running_inj ha
    cases replies
  | @refuse u t' l' m' i id s free refusal =>
    obtain ⟨rfl, he⟩ := running_inj ha
    cases he
    exact ⟨u, rfl, free, .ended refusal⟩
  | @broadcast u t' l' m' after' free accepted =>
    obtain ⟨rfl, he⟩ := running_inj ha
    cases he
    exact ⟨u, rfl, free, .passed accepted⟩
  | _ =>
    obtain ⟨-, he⟩ := running_inj ha
    cases he

/-- What becomes of a message that the running task delivers: it passes on what there is to note of
it, or ends a call of the caller, or answers for the server that this has no handler. -/
inductive Delivers (w : World) (t : TaskId) : Listener → Message → Option TaskId × World → Prop
  | passed {l : Listener} {m : Message} {es : List Event} {next : Option Job}
      (passes : Passes w t (.deliver l m) es next) :
    Delivers w t l m (next.map fun _ => t, w.proceed t es next)
  | answered {i : CallerId} {c : Caller} {m : Message} {id : MessageId}
      (caller : w.callers.get? i = some c) (alive : c.seat.gone = false)
      (answers : m.answers? = some id) :
    Delivers w t (.engine (.caller i)) m
      (none, ((w.record (.delivered (.engine (.caller i)) m)).complete i id (.answered m)).recordAll
        (if (c.pending? id).isNone && c.reportsUnexpected then [.unexpected i m] else []))
  | replied {s : ServerId} {v : Server} {m r : Message} {draft : Draft} {link : LinkId}
      (server : w.servers.get? s = some v) (alive : v.seat.gone = false)
      (judged : v.judge w.wall m = .unserved draft)
      (finish : draft.finish w.mint.1 none = .ok r) :
    Delivers w t (.engine (.server s)) m
      (some t, (((w.record (.delivered (.engine (.server s)) m)).mint.2.record
        (.answered s m r)).record (.sent link r)).park t (.send link r (.answer s)))
  | muted {s : ServerId} {v : Server} {m : Message} {draft : Draft}
      (server : w.servers.get? s = some v) (alive : v.seat.gone = false)
      (judged : v.judge w.wall m = .unserved draft) :
    Delivers w t (.engine (.server s)) m
      (none, (w.record (.delivered (.engine (.server s)) m)).mint.2)

/-- A move of a task at a delivery hands the message to its listener. -/
theorem Move.delivering {a b : Option TaskId × World} (hm : Move a b) {w : World} {t : TaskId}
    {l : Listener} {m : Message} (ha : a = (some t, w.park t (.deliver l m))) :
    ∃ u : World, a = (some t, u.park t (.deliver l m)) ∧ u.tasks.get? t = none ∧
      Delivers u t l m b := by
  cases hm with
  | remove seat unowned alive unheld => cases ha
  | @pass u t' j es next free passes =>
    obtain ⟨rfl, rfl⟩ := running_inj ha
    exact ⟨u, rfl, free, .passed passes⟩
  | doze free dozes =>
    obtain ⟨-, rfl⟩ := running_inj ha
    cases dozes
  | @answered u t' i c m' id free caller alive answers =>
    obtain ⟨rfl, he⟩ := running_inj ha
    cases he
    exact ⟨u, rfl, free, .answered caller alive answers⟩
  | @reply u t' s v m' r j es draft payload free server replies finish =>
    obtain ⟨rfl, rfl⟩ := running_inj ha
    cases replies with
    | unserved _ draft server alive judged =>
      exact ⟨u, rfl, free, .replied server alive judged finish⟩
  | @mute u t' s v m' j es draft payload e free server replies finish =>
    obtain ⟨rfl, rfl⟩ := running_inj ha
    cases replies with
    | unserved _ draft server alive judged => exact ⟨u, rfl, free, .muted server alive judged⟩
  | post free posting linked onTopic finish =>
    obtain ⟨-, he⟩ := running_inj ha
    cases he
  | _ =>
    obtain ⟨-, he⟩ := running_inj ha
    cases he

/-! ## The task under a key -/

def Job.begins : Job → Bool
  | .deliver _ _ => true
  | .deadline _ _ _ => true
  | .prepare _ => true
  | .withdraw _ _ _ => true
  | .start _ => true
  | _ => false

namespace World

variable {w : World} {k : TaskId} {x : Task}

theorem gone_of_complete (free : w.tasks.get? k = none) (i : CallerId) (id : MessageId)
    (cause : Cause) : (w.complete i id cause).tasks.get? k = none := by
  cases task : (w.complete i id cause).tasks.get? k with
  | none => rfl
  | some x =>
    obtain ⟨y, before, -⟩ := complete_task task
    cases free.symm.trans before

/-- A call that is made brings the tasks of its deadline and of its request. -/
theorem invoke_task {i : CallerId} {method : Address} {payload : Option Payload}
    {options : CallOptions}
    (task : (w.invoke i method payload options).2.tasks.get? k = some x) :
    w.tasks.get? k = some x ∨ w.tasks.next ≤ k ∧ x.job.begins = true ∧
      (x.job = .deadline i w.mint.1 options.timeout ∨ ∃ c m, w.callers.get? i = some c ∧
        (c.draft method options w.mint.1).finish w.mint.1 payload = .ok m ∧
        (w.invoke i method payload options).2.ids = w.mint.2.ids ∧
        x.job = .prepare (.request i w.mint.1 m)) := by
  rcases invoke_cases w i method payload options with
    ⟨e, he⟩ | ⟨e, he⟩ | ⟨c, m, caller, -, finish, -, he⟩
  · rw [he] at task
    exact .inl task
  · rw [he] at task
    exact .inl task
  · have minted : (w.invoke i method payload options).2.ids = w.mint.2.ids := by simp [he]
    rw [he] at task
    simp only [accept_keeps, Table.get?_insert, Table.insert_next, mint_keeps] at task
    split at task
    · cases task
      exact .inr ⟨by omega, rfl, .inr ⟨c, m, caller, finish, minted, rfl⟩⟩
    · split at task
      · cases task
        exact .inr ⟨by omega, rfl, .inl rfl⟩
      · exact .inl task

/-- A task that does not run has its job next to the one that runs. -/
theorem job_of_park {t : TaskId} (free : w.tasks.get? t = none) (j : Job)
    (h : ∃ y, w.tasks.get? k = some y ∧ x.job = y.job) :
    ∃ y, (w.park t j).tasks.get? k = some y ∧ x.job = y.job := by
  obtain ⟨y, hy, same⟩ := h
  exact ⟨y, (Table.Sub.refl w.tasks).set free _ k y hy, same⟩

/-- When the running task is put back, with its job or with one that this leads to, the others are
as they were. -/
theorem lineage_of_set {t : TaskId} {j j' : Job} (free : w.tasks.get? t = none)
    (task : (w.tasks.set t ⟨j', false⟩).get? k = some x)
    (leads : j' = j ∨ Leads w t j j' ∧ ∀ l m, j' ≠ .deliver l m) :
    (∃ y, (w.park t j).tasks.get? k = some y ∧ x.job = y.job) ∨
      ∃ v i, (some t, w.park t j) = (some k, v.park k i) ∧ Leads v k i x.job ∧
        ∀ l m, x.job ≠ .deliver l m := by
  rw [Table.get?_set] at task
  split at task
  · rename_i hk
    subst hk
    cases task
    rcases leads with rfl | ⟨leads, other⟩
    · exact .inl ⟨⟨j', false⟩, by simp, rfl⟩
    · exact .inr ⟨w, j, rfl, leads, other⟩
  · exact .inl (job_of_park free j ⟨x, task, rfl⟩)

/-- When the running task makes a call, the tasks that are new are those of the call. -/
theorem lineage_of_invoke {t : TaskId} {i : CallerId} {method : Address} {payload : Option Payload}
    {options : CallOptions} (free : w.tasks.get? t = none)
    (task : (w.invoke i method payload options).2.tasks.get? k = some x) :
    (∃ y, (w.park t (.start (.call i method (.ok payload) options))).tasks.get? k = some y ∧
      x.job = y.job) ∨
    w.tasks.next ≤ k ∧ x.job.begins = true ∧
      Leads w t (.start (.call i method (.ok payload) options)) x.job := by
  rcases invoke_task task with
    old | ⟨hge, begins, deadline | ⟨c, m, caller, finish, minted, call⟩⟩
  · exact .inl (job_of_park free _ ⟨x, old, rfl⟩)
  · refine .inr ⟨hge, begins, ?_⟩
    rw [deadline]
    exact .deadline i method payload options
  · refine .inr ⟨hge, begins, ?_⟩
    rw [call]
    exact .call i c method payload options m caller finish minted

end World

open World in
/-- **A task only goes on.** What stands under a key after a move has the job that it had, or is
the running task with a job that its job leads to, or it is new. -/
theorem Move.lineage {a b : Option TaskId × World} (hm : Move a b) (tidy : a.2.Tidy) {k : TaskId}
    {x : Task} (task : b.2.tasks.get? k = some x) :
    (∃ y, a.2.tasks.get? k = some y ∧ x.job = y.job) ∨
      (∃ w j, a = (some k, w.park k j) ∧ Leads w k j x.job ∧ ∀ l m, x.job ≠ .deliver l m) ∨
      a.2.tasks.next ≤ k ∧ x.job.begins = true ∧
        ((∃ w t j, a = (some t, w.park t j) ∧ Leads w t j x.job) ∨
          ∃ e p, a.2.seat? e = some p ∧ (p.closed = false ∧ p.gone = false) ∧
            p.cell = .registered ∧ b = (none, a.2.remove e p .inside) ∧
            x.job = .withdraw p.link p.sink e) := by
  cases hm with
  | @remove w e p side seat unowned alive unheld =>
    rcases remove_tasks w e p side with ⟨opened, registered, rfl, tasks⟩ | tasks <;>
      rw [tasks] at task
    · rw [Table.get?_insert] at task
      split at task
      · rename_i hk
        cases task
        exact .inr (.inr ⟨Nat.le_of_eq hk.symm, rfl,
          .inr ⟨e, p, seat, ⟨opened, alive⟩, registered, rfl, rfl⟩⟩)
      · exact .inl ⟨x, task, rfl⟩
    · exact .inl ⟨x, task, rfl⟩
  | @pass w t j es next free passes =>
    cases next with
    | none => exact .inl (job_of_park free j ⟨x, by simpa using task, rfl⟩)
    | some j' =>
      refine (lineage_of_set free (by simpa using task)
        (.inr ⟨.of_passes passes, fun l m hd => ?_⟩)).imp_right .inl
      exact passes.next_ne_deliver l m (by rw [hd])
  | doze free dozes => exact (lineage_of_set free task (.inl rfl)).imp_right .inl
  | rest free => exact (lineage_of_set free task (.inr ⟨.rest _, by simp⟩)).imp_right .inl
  | arm free => exact (lineage_of_set free task (.inr ⟨.arm .., by simp⟩)).imp_right .inl
  | expire free => exact .inl (job_of_park free _ (complete_task task))
  | @answered w t i c m id free caller alive answers =>
    rw [recordAll_tasks] at task
    obtain ⟨y, hy, same⟩ := complete_task task
    exact .inl (job_of_park free _ ⟨y, by simpa using hy, same⟩)
  | @reply w t s v m a j es draft payload free server replies finish =>
    exact (lineage_of_set free (by simpa using task)
      (.inr ⟨.reply s v m a j es draft payload server replies finish, by simp⟩)).imp_right .inl
  | mute free server replies finish =>
    exact .inl (job_of_park free _ ⟨x, by simpa using task, rfl⟩)
  | @claim w t u p free seat vacant =>
    exact (lineage_of_set free (by simpa using task)
      (.inr ⟨.attempt _ u p rfl seat, by simp⟩)).imp_right .inl
  | @wait w t u p waiting free seat attempting =>
    exact (lineage_of_set free (by simpa using task) (.inr ⟨.wait u, by simp⟩)).imp_right .inl
  | @enrol w t r u hub free registration =>
    cases hn : (w.onward t u).2 with
    | none => exact .inl (job_of_park free _ ⟨x, by simpa [hn] using task, rfl⟩)
    | some j' =>
      refine (lineage_of_set free (by simpa [hn] using task) (.inr ⟨.of_onward rfl hn
        (.inr ⟨r, hub, rfl, registration⟩), fun l m hd => ?_⟩)).imp_right .inl
      exact w.onward_ne_deliver t u l m (by rw [hn, hd])
  | @failRequest w t r i id m s free refusal =>
    obtain ⟨y, hy, same⟩ := complete_task task
    exact .inl (job_of_park free _ ⟨y, by simpa using hy, same⟩)
  | refuse free refusal => exact .inl (job_of_park free _ (complete_task task))
  | @broadcast w t l m after free accepted =>
    have task : (w.broadcast m).tasks.get? k = some x := by simpa using task
    rcases broadcast_task tidy.unpark.tasks task with old | ⟨n, listener, rfl, recipient, rfl⟩
    · exact .inl (job_of_park free _ ⟨x, old, rfl⟩)
    · exact .inr (.inr ⟨Nat.le_add_right .., rfl, .inl ⟨w, t, _, rfl,
        .broadcast l m after listener accepted (List.mem_of_getElem? recipient)⟩⟩)
  | await free place pending => exact (lineage_of_set free task (.inl rfl)).imp_right .inl
  | @addHandler w t s v method h free server vacant =>
    exact (lineage_of_set free (by simpa using task)
      (.inr ⟨.addHandler s v method h server vacant, by simp⟩)).imp_right .inl
  | @closeListening w t e p free seat opened registered =>
    exact (lineage_of_set free (by simpa using task)
      (.inr ⟨.close e p seat opened registered, by simp⟩)).imp_right .inl
  | @post w t o l resource draft payload options link topic m free posting linked onTopic finish =>
    exact (lineage_of_set free task (.inr
      ⟨.post o l resource draft payload options topic m posting finish, by simp⟩)).imp_right .inl
  | @call w v t i method payload options accepted free invoked =>
    have hv : v = (w.invoke i method payload options).2 := by rw [invoked]
    subst hv
    simp only [park_keeps, Table.get?_set] at task
    split at task
    · rename_i hk
      subst hk
      cases task
      exact .inr (.inl ⟨w, _, rfl, .await i method payload options accepted.call, by simp⟩)
    · exact (lineage_of_invoke free task).imp_right fun new =>
        .inr ⟨by simpa using new.1, new.2.1, .inl ⟨w, t, _, rfl, new.2.2⟩⟩
  | @callRefused w v t i method payload options e free invoked =>
    have hv : v = (w.invoke i method payload options).2 := by rw [invoked]
    subst hv
    exact (lineage_of_invoke free task).imp_right fun new =>
      .inr ⟨by simpa using new.1, new.2.1, .inl ⟨w, t, _, rfl, new.2.2⟩⟩
  | _ => exact .inl (job_of_park (by assumption) _ ⟨x, by simpa using task, rfl⟩)

/-- A move brings no jobs but those that the running task's job leads to, and the withdrawal of the
listener of an engine that goes away. -/
theorem Move.leads {a b : Option TaskId × World} (hm : Move a b) (tidy : a.2.Tidy) {j' : Job}
    (hj : b.2.HasJob j') :
    a.2.HasJob j' ∨ (∃ w t j, a = (some t, w.park t j) ∧ Leads w t j j') ∨
      ∃ e p, a.2.seat? e = some p ∧ (p.closed = false ∧ p.gone = false) ∧ p.cell = .registered ∧
        b = (none, a.2.remove e p .inside) ∧ j' = .withdraw p.link p.sink e := by
  obtain ⟨k, x, task, rfl⟩ := hj
  rcases hm.lineage tidy task with ⟨y, hy, same⟩ | ⟨w, j, ha, leads, -⟩ | ⟨-, -, new⟩
  · exact .inl ⟨k, y, hy, same.symm⟩
  · exact .inr (.inl ⟨w, k, j, ha, leads⟩)
  · exact .inr new

/-- At the outset of an act, too, every task has the job that it had, or is new: an operation that
starts, a message from outside, or a task of a call that is made. -/
theorem Outset.lineage {w : World} {a : Act} {b : Option TaskId × World} (ho : Outset w a b)
    {k : TaskId} {x : Task} (task : b.2.tasks.get? k = some x) :
    w.tasks.get? k = some x ∨ w.tasks.next ≤ k ∧ x.job.begins = true ∧
      ((∃ o, (a = .command (.enter o) ∨ a = .command (.spawn o)) ∧ x.job = .start o) ∨
        (∃ l m, a = .inbound l m ∧ x.job = .deliver l m) ∨
        ∃ i method payload options, a = .command (.invoke i method payload options) ∧
          (x.job = .deadline i w.mint.1 options.timeout ∨ ∃ c m, w.callers.get? i = some c ∧
            (c.draft method options w.mint.1).finish w.mint.1 payload = .ok m ∧
            (w.invoke i method payload options).2.ids = w.mint.2.ids ∧
            x.job = .prepare (.request i w.mint.1 m))) := by
  have inserted : ∀ {y : Task}, b.2.tasks = (w.tasks.insert y).2 →
      w.tasks.get? k = some x ∨ w.tasks.next ≤ k ∧ x = y := by
    intro y tasks
    rw [tasks, Table.get?_insert] at task
    split at task
    · rename_i hk
      exact .inr ⟨Nat.le_of_eq hk.symm, (Option.some.inj task).symm⟩
    · exact .inl task
  cases ho with
  | take t j ready task' =>
    simp only [World.park_keeps, World.without_keeps, Table.get?_set, Table.get?_erase] at task
    split at task
    · rename_i hk
      cases task
      exact .inl (hk ▸ task')
    · exact .inl task
  | discard t j ready task' =>
    simp only [World.without_keeps, Table.get?_erase] at task
    split at task
    · cases task
    · exact .inl task
  | enter o allowed =>
    simp only [World.park_keeps, Table.get?_set, Table.get?_reserve] at task
    split at task
    · rename_i hk
      cases task
      exact .inr ⟨Nat.le_of_eq hk.symm, rfl, .inl ⟨o, .inl rfl, rfl⟩⟩
    · exact .inl task
  | spawn o allowed =>
    rcases inserted (y := ⟨.start o, false⟩) rfl with old | ⟨hge, rfl⟩
    · exact .inl old
    · exact .inr ⟨hge, rfl, .inl ⟨o, .inr rfl, rfl⟩⟩
  | inbound l m =>
    rcases inserted (y := ⟨.deliver l m, false⟩) rfl with old | ⟨hge, rfl⟩
    · exact .inl old
    · exact .inr ⟨hge, rfl, .inr (.inl ⟨l, m, rfl, rfl⟩)⟩
  | invoke i method payload options owned =>
    exact (World.invoke_task task).imp_right fun new =>
      ⟨new.1, new.2.1, .inr (.inr ⟨i, method, payload, options, rfl, new.2.2⟩)⟩
  | fire due next => exact .inl (by simpa [World.fire] using task)
  | hold e owned => exact .inl (by simpa [World.hold] using task)
  | drop e side owned => exact .inl (by simpa using task)
  | _ => exact .inl task

/-- The outset of an act brings no jobs but an operation that starts, a message from outside, and
those of a call that is made. -/
theorem Outset.leads {w : World} {a : Act} {b : Option TaskId × World} (ho : Outset w a b)
    {j' : Job} (hj : b.2.HasJob j') :
    w.HasJob j' ∨ (∃ o, (a = .command (.enter o) ∨ a = .command (.spawn o)) ∧ j' = .start o) ∨
      (∃ l m, a = .inbound l m ∧ j' = .deliver l m) ∨
      ∃ i method payload options, a = .command (.invoke i method payload options) ∧
        (j' = .deadline i w.mint.1 options.timeout ∨ ∃ c m, w.callers.get? i = some c ∧
          (c.draft method options w.mint.1).finish w.mint.1 payload = .ok m ∧
          (w.invoke i method payload options).2.ids = w.mint.2.ids ∧
          j' = .prepare (.request i w.mint.1 m)) := by
  obtain ⟨k, x, task, rfl⟩ := hj
  exact (ho.lineage task).imp (fun old => ⟨k, x, old, rfl⟩) fun new => new.2.2

/-- A call that a command makes takes an id for it. -/
theorem Outset.ids_of_invoke {w : World} {a : Act} {b : Option TaskId × World} (ho : Outset w a b)
    {i : CallerId} {method : Address} {payload : Option Payload} {options : CallOptions}
    (ha : a = .command (.invoke i method payload options)) :
    b.2.ids = (w.invoke i method payload options).2.ids := by
  cases ho with
  | invoke i method payload options owned =>
    cases ha
    rfl
  | idle c same starts =>
    cases ha
    exact congrArg World.ids same.symm
  | _ => cases ha

/-- A task that runs at the outset of an act has had its job before, or starts an operation. -/
theorem Outset.runs {w : World} {a : Act} {b : Option TaskId × World} (ho : Outset w a b)
    {t : TaskId} {x : Task} (runs : b.1 = some t) (task : b.2.tasks.get? t = some x) :
    (a = .turn t ∧ w.tasks.get? t = some x ∧ b.2 = (w.without t).park t x.job) ∨
      ∃ o, x.job = .start o := by
  cases ho with
  | take t' j ready task' =>
    cases runs
    have he : x = ⟨j, false⟩ := by simpa using task.symm
    subst he
    exact .inl ⟨rfl, task', rfl⟩
  | enter o allowed =>
    cases runs
    have he : x = ⟨.start o, false⟩ := by simpa using task.symm
    exact .inr ⟨o, by rw [he]⟩
  | _ => cases runs

/-- An act that starts an operation sets out with its task running, and leaves the engines alone. -/
theorem Outset.starts {w : World} {a : Act} {b : Option TaskId × World} (ho : Outset w a b)
    {o : Operation} {t : TaskId} (starts : a = .command (.enter o) ∧ t = w.tasks.next ∨
      a = .turn t ∧ w.tasks.get? t = some ⟨.start o, false⟩) :
    b.1 = some t ∧ b.2.tasks.get? t = some ⟨.start o, false⟩ ∧ b.2.callers = w.callers ∧
      b.2.servers = w.servers := by
  rcases starts with ⟨rfl, rfl⟩ | ⟨rfl, task⟩
  · cases ho with
    | enter o allowed => exact ⟨rfl, park_self .., rfl, rfl⟩
    | idle c unmoved other => exact absurd rfl (other _).1
  · cases ho with
    | take t j ready task' =>
      cases task.symm.trans task'
      exact ⟨rfl, park_self .., rfl, rfl⟩
    | discard t j ready task' => cases task.symm.trans task'
    | stale t ready task' => cases task.symm.trans task'

/-! ## Answers -/

theorem Outset.answers {w : World} {a : Act} {b : Option TaskId × World} (ho : Outset w a b)
    {s : ServerId} {m r : Message} (answered : b.2.Has (.answered s m r)) :
    w.Has (.answered s m r) := by
  cases ho with
  | invoke i method payload options owned => exact answered.of_invoke.resolve_left (by simp)
  | fire due next => simpa [World.fire, Has] using answered
  | hold e owned => simpa [World.hold, Has] using answered
  | drop e side owned => simpa [Has] using answered
  | _ => exact answered

theorem World.onward_unanswered (w : World) (t : TaskId) (u : Use) (s : ServerId)
    (m r : Message) : .answered s m r ∉ (w.onward t u).1 := by
  cases u with
  | request i id m =>
    simp only [onward]
    split <;> simp
  | serve s m h => simp [onward]

theorem Passes.unanswered {w : World} {t : TaskId} {j : Job} {es : List Event} {next : Option Job}
    (h : Passes w t j es next) (s : ServerId) (m r : Message) : .answered s m r ∉ es := by
  cases h with
  | unexpected i c m caller alive unasked => cases c.reportsUnexpected <;> simp
  | useAtOnce u registered => exact w.onward_unanswered t u s m r
  | use u registered => exact w.onward_unanswered t u s m r
  | sendRefused l m after s refusal other => cases after <;> simp [AfterSend.events]
  | unregisterRefused l source sink listener after s refusal =>
    cases after <;> simp [AfterUnregister.events]
  | _ => simp

theorem Replies.unanswered {w : World} {s' : ServerId} {m' : Message} {j : Job} {es : List Event}
    {draft : Draft} {payload : Option Payload} (h : Replies w s' m' j es draft payload)
    (s : ServerId) (m r : Message) : .answered s m r ∉ es := by
  cases h <;> simp

/-- A server has answered in a move, and what it answered is what its running task had in hand. -/
theorem Move.answers {a b : Option TaskId × World} (hm : Move a b) {s : ServerId} {m r : Message}
    (answered : b.2.Has (.answered s m r)) :
    a.2.Has (.answered s m r) ∨ ∃ w t j es draft payload, a = (some t, w.park t j) ∧
      Replies w s m j es draft payload ∧ draft.finish w.mint.1 payload = .ok r := by
  cases hm with
  | @pass w t j es next free passes =>
    left
    simpa [Has, passes.unanswered s m r] using answered
  | @answered w t i c m id free caller alive answers =>
    left
    simpa [Has, recordAll_events] using answered
  | @reply w t s' v m' a' j es draft payload free server replies finish =>
    have answered : ((((w.recordAll es).mint.2.record (.answered s' m' a')).record
        (.sent v.seat.link a'))).Has (.answered s m r) := answered
    simp only [has_record, reduceCtorEq, false_or] at answered
    rcases answered with he | ho
    · cases he
      exact .inr ⟨w, t, j, es, draft, payload, rfl, replies, finish⟩
    · exact .inl ((has_recordAll.mp ho).resolve_left (replies.unanswered s m r))
  | @mute w t s' v m' j es draft payload e free server replies finish =>
    left
    simpa [Has, recordAll_events, replies.unanswered s m r] using answered
  | @enrol w t reg u hub free registration =>
    left
    simpa [Has, w.onward_unanswered t u s m r] using answered
  | @unlist w t l source sink listener after hub free unregistration =>
    left
    cases after <;> simpa [Has, AfterUnregister.events] using answered
  | @broadcast w t l m after free accepted =>
    left
    cases after <;> simpa [Has, AfterSend.events] using answered
  | @call w v t i method payload options accepted free hi =>
    have called : (w.invoke i method payload options).2.Has (.answered s m r) := by rwa [hi]
    exact .inl (called.of_invoke.resolve_left (by simp))
  | @callRefused w v t i method payload options e free hi =>
    have called : (w.invoke i method payload options).2.Has (.answered s m r) := by
      rw [hi]
      simpa [Has] using answered
    exact .inl (called.of_invoke.resolve_left (by simp))
  | _ =>
    left
    simpa [Has] using answered

end Switchboard
