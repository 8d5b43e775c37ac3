import Switchboard.Proofs.Histories
import Switchboard.Proofs.Runs

/-! # Every call ends once

What a caller has promised can be read off the history. `Ledger` says that the
world keeps to it. The pending calls of a caller are those that nothing has
ended; each of them has a place for its outcome and a task that will end it at
its deadline, so its caller cannot go away before; and a place holds the
outcome of the first thing that ended its call, whatever came later. Main
statement: `calls_end_once`.
-/

namespace Switchboard

open History

/-- The call that a job ends at its deadline. -/
def Job.call? : Job → Option (CallerId × MessageId)
  | .deadline i id _ => some (i, id)
  | .expire i id _ => some (i, id)
  | _ => none

theorem Job.holds_of_call {j : Job} {i : CallerId} {id : MessageId} (h : j.call? = some (i, id)) :
    j.holds = some (.caller i) := by
  cases j <;> simp_all [call?, holds]

def MessageId.Source.HasIssued (s : MessageId.Source) (id : MessageId) : Prop :=
  ∃ n < s.issued, s.issue n = id

def MessageId.Source.Distinct (s : MessageId.Source) : Prop :=
  ∀ a < s.issued, ∀ b < s.issued, s.issue a = s.issue b → a = b

instance (s : MessageId.Source) : Decidable s.Distinct :=
  inferInstanceAs (Decidable (∀ a < s.issued, ∀ b < s.issued, s.issue a = s.issue b → a = b))

namespace World

def pendingOf (w : World) (i : CallerId) : List PendingCall :=
  (w.callers.get? i).elim [] (·.pending)

/-- A task waits to end a call at its deadline. -/
def Watches (w : World) (k : TaskId) (call : CallerId × MessageId) : Prop :=
  ∃ j, w.tasks.get? k = some ⟨j, false⟩ ∧ j.call? = some call

/-- The world keeps to what its history says of calls. One call may lack the task of its deadline,
while that is what ends it. -/
structure Ledger (spare : Option (CallerId × MessageId)) (w : World) : Prop where
  issued : ∀ i, ∀ id ∈ accepted i w.events, w.ids.HasIssued id
  nodup : ∀ i, (accepted i w.events).Nodup
  sole : ∀ i i', ∀ id ∈ accepted i w.events, id ∈ accepted i' w.events → i = i'
  registry : ∀ i, (w.pendingOf i).map (·.id) = awaited i w.events
  places : ∀ i, ∀ p ∈ w.pendingOf i,
    ∃ call, w.calls.get? p.call = some call ∧ call.caller = i ∧ call.id = p.id
  outcomes : ∀ k call, w.calls.get? k = some call →
    call.id ∈ accepted call.caller w.events ∧
      call.outcome = (ending? call.caller call.id w.events).map Cause.outcome
  unique : ∀ k k' call call', w.calls.get? k = some call → w.calls.get? k' = some call' →
    call.caller = call'.caller → call.id = call'.id → k = k'
  placed : ∀ i, ∀ id ∈ accepted i w.events,
    ∃ k call, w.calls.get? k = some call ∧ call.caller = i ∧ call.id = id
  watched : ∀ i, ∀ p ∈ w.pendingOf i, some (i, p.id) ≠ spare → w.Watches p.deadline (i, p.id)
  deadlines : ∀ i i', ∀ p ∈ w.pendingOf i, ∀ p' ∈ w.pendingOf i', p.deadline = p'.deadline →
    i = i' ∧ p.id = p'.id

/-- Each call has its place in both worlds, whatever has become of it. -/
def SamePlaces (w v : World) : Prop :=
  ∀ k, (v.calls.get? k).map (fun c => (c.caller, c.id)) =
    (w.calls.get? k).map fun c => (c.caller, c.id)

theorem SamePlaces.symm {w v : World} (h : w.SamePlaces v) : v.SamePlaces w := fun k => (h k).symm

theorem SamePlaces.exists_call {w v : World} (h : w.SamePlaces v) {k : CallId} {call : Call}
    (hk : w.calls.get? k = some call) :
    ∃ call', v.calls.get? k = some call' ∧ call'.caller = call.caller ∧ call'.id = call.id := by
  have hc := h k
  rw [hk, Option.map_some, Option.map_eq_some_iff] at hc
  obtain ⟨call', hk', heq⟩ := hc
  simp only [Prod.mk.injEq] at heq
  exact ⟨call', hk', heq⟩

namespace Ledger

variable {w v : World} {t : TaskId} {j : Job} {spare : Option (CallerId × MessageId)}

theorem new (h : w.IsNew) : w.Ledger none := by
  obtain ⟨wall, ids, rfl⟩ := h
  refine ⟨?_, ?_, ?_, ?_, ?_, ?_, ?_, ?_, ?_, ?_⟩ <;>
    simp [accepted, awaited, pendingOf, Table.get?]

/-- The parts of a call's place that the ledger is about. -/
def account (c : Call) : CallerId × MessageId × Option (Except Failure Payload) :=
  (c.caller, c.id, c.outcome)

theorem places_of_same (h : w.Ledger spare) (same : w.SamePlaces v) {i : CallerId}
    {p : PendingCall} (hp : p ∈ w.pendingOf i) :
    ∃ call, v.calls.get? p.call = some call ∧ call.caller = i ∧ call.id = p.id := by
  obtain ⟨call, hk, hi, hid⟩ := h.places i p hp
  obtain ⟨call', hk', hi', hid'⟩ := same.exists_call hk
  exact ⟨call', hk', hi'.trans hi, hid'.trans hid⟩

theorem unique_of_same (h : w.Ledger spare) (same : w.SamePlaces v) {k k' : CallId}
    {call call' : Call} (hk : v.calls.get? k = some call) (hk' : v.calls.get? k' = some call')
    (hi : call.caller = call'.caller) (hid : call.id = call'.id) : k = k' := by
  obtain ⟨x, hx, hxi, hxid⟩ := same.symm.exists_call hk
  obtain ⟨y, hy, hyi, hyid⟩ := same.symm.exists_call hk'
  exact h.unique k k' x y hx hy (by rw [hxi, hyi, hi]) (by rw [hxid, hyid, hid])

theorem placed_of_same (h : w.Ledger spare) (same : w.SamePlaces v) {i : CallerId}
    {id : MessageId} (hid : id ∈ accepted i w.events) :
    ∃ k call, v.calls.get? k = some call ∧ call.caller = i ∧ call.id = id := by
  obtain ⟨k, call, hk, hi, hid⟩ := h.placed i id hid
  obtain ⟨call', hk', hi', hid'⟩ := same.exists_call hk
  exact ⟨k, call', hk', hi'.trans hi, hid'.trans hid⟩

theorem quiet {spare' : Option (CallerId × MessageId)} (h : w.Ledger spare)
    (issue : v.ids.issue = w.ids.issue) (issued : w.ids.issued ≤ v.ids.issued)
    (pending : ∀ i, v.pendingOf i = w.pendingOf i)
    (calls : ∀ k, (v.calls.get? k).map account = (w.calls.get? k).map account)
    (accepts : ∀ i, accepted i v.events = accepted i w.events)
    (endings : ∀ i id, ending? i id v.events = ending? i id w.events)
    (watch : ∀ i, ∀ p ∈ w.pendingOf i, some (i, p.id) ≠ spare' →
      (some (i, p.id) ≠ spare → w.Watches p.deadline (i, p.id)) →
        v.Watches p.deadline (i, p.id)) :
    v.Ledger spare' := by
  have same : w.SamePlaces v := by
    intro k
    have hc := congrArg (Option.map fun x => (x.1, x.2.1)) (calls k)
    rw [Option.map_map, Option.map_map] at hc
    exact hc
  constructor
  case issued =>
    intro i id hid
    rw [accepts] at hid
    obtain ⟨n, hn, hi⟩ := h.issued i id hid
    exact ⟨n, Nat.lt_of_lt_of_le hn issued, by rw [issue, hi]⟩
  case nodup => intro i; rw [accepts]; exact h.nodup i
  case sole =>
    intro i i' id hid hid'
    rw [accepts] at hid hid'
    exact h.sole i i' id hid hid'
  case registry =>
    intro i
    have hw : awaited i v.events = awaited i w.events := by simp [awaited, accepts, endings]
    rw [pending, hw]
    exact h.registry i
  case places =>
    intro i p hp
    rw [pending] at hp
    exact h.places_of_same same hp
  case outcomes =>
    intro k call hk
    have hc := calls k
    rw [hk, Option.map_some, eq_comm, Option.map_eq_some_iff] at hc
    obtain ⟨call', hk', heq⟩ := hc
    simp only [account, Prod.mk.injEq] at heq
    obtain ⟨hi, hid, ho⟩ := heq
    have := h.outcomes k call' hk'
    rwa [hi, hid, ho, ← accepts, ← endings] at this
  case unique =>
    intro k k' call call' hk hk' hi hid
    exact h.unique_of_same same hk hk' hi hid
  case placed =>
    intro i id hid
    rw [accepts] at hid
    exact h.placed_of_same same hid
  case watched =>
    intro i p hp hs
    rw [pending] at hp
    exact watch i p hp hs (h.watched i p hp)
  case deadlines =>
    intro i i' p hp p' hp'
    rw [pending] at hp hp'
    exact h.deadlines i i' p hp p' hp'

/-- The running task is left out; if it is the one that ends a call, that call may lack it. -/
theorem unpark (h : (w.park t j).Ledger none) : w.Ledger j.call? := by
  refine h.quiet rfl (Nat.le_refl _) (fun _ => rfl) (fun _ => rfl)
    (fun _ => rfl) (fun _ _ => rfl) fun i p _ hs hw => ?_
  obtain ⟨j', hk, hc⟩ := hw (by simp)
  simp only [park_keeps, Table.get?_set] at hk
  split at hk
  · cases hk
    exact absurd hc.symm hs
  · exact ⟨j', hk, hc⟩

/-- A change that concerns no call and stops no task. -/
theorem grow (h : w.Ledger spare) (issue : v.ids.issue = w.ids.issue)
    (issued : w.ids.issued ≤ v.ids.issued) (pending : ∀ i, v.pendingOf i = w.pendingOf i)
    (calls : ∀ k, (v.calls.get? k).map account = (w.calls.get? k).map account)
    (events : entries v.events = entries w.events) (tasks : w.tasks.Sub v.tasks) :
    v.Ledger spare := by
  refine h.quiet issue issued pending calls (accepted_congr events)
    (ending?_congr events) fun i p _ hs hw => ?_
  obtain ⟨j, hk, hc⟩ := hw hs
  exact ⟨j, tasks _ _ hk, hc⟩

theorem weaken (h : w.Ledger none) : w.Ledger spare :=
  h.quiet rfl (Nat.le_refl _) (fun _ => rfl) (fun _ => rfl) (fun _ => rfl) (fun _ _ => rfl)
    fun _ _ _ _ hw => hw (by simp)

theorem recordAll (h : w.Ledger spare) {es : List Event} (hes : ∀ e ∈ es, isEntry e = false) :
    (w.recordAll es).Ledger spare :=
  h.grow (by simp) (by simp) (fun _ => by simp [pendingOf]) (fun _ => by simp)
    (by rw [recordAll_events, entries_append hes]) (by simp [Table.Sub.refl])

theorem record (h : w.Ledger spare) {e : Event} (he : isEntry e = false) :
    (w.record e).Ledger spare :=
  (h.recordAll (by simpa using he) : (w.recordAll [e]).Ledger spare)

theorem park (h : w.Ledger spare) (free : w.tasks.get? t = none) (j : Job) :
    (w.park t j).Ledger spare :=
  h.grow rfl (Nat.le_refl _) (fun _ => rfl) (fun _ => rfl) rfl ((Table.Sub.refl _).set free _)

theorem sleep (h : w.Ledger spare) (free : w.tasks.get? t = none) (ms : Nat) (j : Job) :
    (w.sleep t ms j).Ledger spare :=
  h.grow rfl (Nat.le_refl _) (fun _ => rfl) (fun _ => rfl) rfl ((Table.Sub.refl _).set free _)

theorem spawn (h : w.Ledger spare) (tidy : w.Tidy) (j : Job) : (w.spawn j).2.Ledger spare :=
  h.grow rfl (Nat.le_refl _) (fun _ => rfl) (fun _ => rfl) rfl
    ((Table.Sub.refl _).insert tidy.tasks _)

theorem proceed (h : w.Ledger spare) (free : w.tasks.get? t = none) {es : List Event}
    (hes : ∀ e ∈ es, isEntry e = false) (next : Option Job) :
    (w.proceed t es next).Ledger spare := by
  cases next with
  | none => exact h.recordAll hes
  | some j => exact (h.recordAll hes).park (by simpa using free) j

theorem of_same (h : w.Ledger spare) (ids : v.ids = w.ids) (callers : v.callers = w.callers)
    (calls : v.calls = w.calls) (tasks : v.tasks = w.tasks) (events : v.events = w.events) :
    v.Ledger spare :=
  h.grow (by rw [ids]) (Nat.le_of_eq (by rw [ids])) (fun _ => by simp [pendingOf, callers])
    (fun _ => by rw [calls]) (by rw [events]) (by rw [tasks])

theorem modifySeat (h : w.Ledger spare) (f : Seat → Seat) (e : EngineId) :
    (w.modifySeat f e).Ledger spare := by
  refine h.grow (by simp) (by simp) (fun i => ?_) (fun _ => by simp) (by simp)
    (by simp [Table.Sub.refl])
  simp only [pendingOf, modifySeat_callers]
  split
  · cases w.callers.get? i <;> rfl
  · rfl

theorem settleCell (h : w.Ledger spare) (e : EngineId) (r : Except Status Unit) :
    (w.settleCell e r).Ledger spare := by
  rcases settleCell_eq w e r with he | ⟨cell, ts, he⟩
  · rw [he]
    exact h
  · rw [he]
    exact (h.modifySeat (fun p => { p with cell := cell }) e).of_same (by simp) (by simp)
      (by simp) (by simp) (by simp)

theorem modifyServer (h : w.Ledger spare) (s : ServerId) (f : Server → Server) :
    (w.modifyServer s f).Ledger spare := h.of_same rfl rfl rfl rfl rfl

theorem withHub (h : w.Ledger spare) (hub : Hub) : { w with hub := hub }.Ledger spare :=
  h.of_same rfl rfl rfl rfl rfl

theorem broadcast (h : w.Ledger spare) (tidy : w.Tidy) (m : Message) :
    (w.broadcast m).Ledger spare := by
  refine h.grow (by simp) (by simp) (fun i => by simp [pendingOf]) (fun _ => by simp) (by simp) ?_
  intro k x hk
  have hb := broadcast_spawns w m (w.hub.recipients m) tidy.tasks
  rw [← hk]
  exact hb.2.2 k (tidy.tasks.lt hk)

/-- A task that waits for a call's outcome is noted in its place. -/
theorem setWaiter (h : w.Ledger spare) {k : CallId} {call : Call}
    (hk : w.calls.get? k = some call) (waiter : Option TaskId) :
    { w with calls := w.calls.set k { call with waiter := waiter } }.Ledger spare := by
  refine h.grow rfl (Nat.le_refl _) (fun _ => rfl) (fun k' => ?_) rfl (.refl _)
  simp only [Table.get?_set]
  split
  · rename_i hkk
    rw [hkk, hk]
    rfl
  · rfl

/-! ## The end of a call -/

theorem mem_pendingOf {i : CallerId} {id : MessageId} {p : PendingCall}
    (hp : (w.callers.get? i).bind (·.pending? id) = some p) : p ∈ w.pendingOf i ∧ p.id = id := by
  obtain ⟨c, hc, hf⟩ := Option.bind_eq_some_iff.mp hp
  refine ⟨?_, by simpa using List.find?_some hf⟩
  simpa [pendingOf, hc] using List.mem_of_find?_eq_some hf

theorem notMem_pendingOf {i : CallerId} {id : MessageId}
    (hp : (w.callers.get? i).bind (·.pending? id) = none) : ∀ p ∈ w.pendingOf i, p.id ≠ id := by
  intro p hm hid
  cases hc : w.callers.get? i with
  | none => simp [pendingOf, hc] at hm
  | some c =>
    simp only [hc, Option.bind_some] at hp
    simp only [pendingOf, hc, Option.elim_some] at hm
    simpa [hid] using List.find?_eq_none.mp hp p hm

theorem complete_idle {i : CallerId} {id : MessageId} (h : w.Ledger (some (i, id)))
    (hp : (w.callers.get? i).bind (·.pending? id) = none) (cause : Cause) :
    (w.complete i id cause).Ledger none := by
  have hn := notMem_pendingOf hp
  have hid : id ∉ awaited i w.events := by
    rw [← h.registry i, List.mem_map]
    intro ho
    obtain ⟨p, hm, hpid⟩ := ho
    exact hn p hm hpid
  rw [complete_of_none hp]
  refine h.quiet rfl (Nat.le_refl _) (fun _ => rfl) (fun _ => rfl) (fun _ => rfl)
    (fun j x => ?_) fun j p hm _ hw => ?_
  · simp only [record_keeps, ending?_ended]
    rw [if_neg]
    intro ho
    obtain ⟨rfl, rfl, hx⟩ := ho
    exact hid hx
  · refine hw fun heq => ?_
    cases heq
    exact hn p hm rfl

theorem pendingOf_complete {i : CallerId} {id : MessageId} {p : PendingCall}
    (hp : (w.callers.get? i).bind (·.pending? id) = some p) (cause : Cause) (j : CallerId) :
    (w.complete i id cause).pendingOf j =
      if j = i then (w.pendingOf i).filter (·.id != id) else w.pendingOf j := by
  rw [complete_of_some hp]
  simp only [pendingOf, resolve_keeps, cancel_keeps, modifyCaller_keeps, Table.get?_modify,
    record_keeps]
  split
  · rename_i hj
    subst hj
    cases w.callers.get? j <;> simp [Caller.forget]
  · rfl

theorem mem_pendingOf_complete {i j : CallerId} {id : MessageId} {p q : PendingCall}
    (hp : (w.callers.get? i).bind (·.pending? id) = some p) {cause : Cause}
    (hq : q ∈ (w.complete i id cause).pendingOf j) :
    q ∈ w.pendingOf j ∧ ¬(j = i ∧ q.id = id) := by
  rw [pendingOf_complete hp] at hq
  split at hq
  · rename_i hj
    subst hj
    simp only [List.mem_filter, bne_iff_ne] at hq
    exact ⟨hq.1, fun hc => hq.2 hc.2⟩
  · rename_i hj
    exact ⟨hq, fun hc => hj hc.1⟩

theorem ending?_complete {i : CallerId} {id : MessageId} (awaits : id ∈ awaited i w.events)
    (cause : Cause) (j : CallerId) (x : MessageId) :
    ending? j x (w.complete i id cause).events =
      if i = j ∧ id = x then some cause else ending? j x w.events := by
  simp only [complete_keeps, ending?_ended]
  by_cases hx : i = j ∧ id = x
  · obtain ⟨rfl, rfl⟩ := hx
    simp [awaits]
  · rw [if_neg hx, if_neg fun hc => hx ⟨hc.1, hc.2.1⟩]

theorem accepted_complete (i : CallerId) (id : MessageId) (cause : Cause) (j : CallerId) :
    accepted j (w.complete i id cause).events = accepted j w.events := by
  simp [accepted]

/-- Only the call that ends is no longer awaited. -/
theorem awaited_complete {i : CallerId} {id : MessageId} (awaits : id ∈ awaited i w.events)
    (cause : Cause) (j : CallerId) : awaited j (w.complete i id cause).events =
      if j = i then (awaited j w.events).filter (· != id) else awaited j w.events := by
  simp only [awaited, accepted_complete, ending?_complete awaits]
  split
  · rename_i hj
    subst hj
    rw [List.filter_filter]
    refine List.filter_congr fun x _ => ?_
    by_cases hx : id = x
    · simp [hx]
    · simp [hx, Ne.symm hx]
  · rename_i hj
    refine List.filter_congr fun x _ => ?_
    rw [if_neg fun hc => hj hc.1.symm]

theorem samePlaces_complete {i : CallerId} {id : MessageId} {p : PendingCall}
    (hp : (w.callers.get? i).bind (·.pending? id) = some p) (cause : Cause) :
    w.SamePlaces (w.complete i id cause) := by
  intro k
  rw [complete_calls_get? hp]
  split
  · rw [Option.map_map]
    rfl
  · rfl

/-- The first thing that ends a pending call gives it its outcome. -/
theorem complete_pending {i : CallerId} {id : MessageId} {p : PendingCall}
    (h : w.Ledger (some (i, id))) (hp : (w.callers.get? i).bind (·.pending? id) = some p)
    (cause : Cause) : (w.complete i id cause).Ledger none := by
  obtain ⟨hpm, hpid⟩ := mem_pendingOf hp
  obtain ⟨place, hplace, hpi, hpid'⟩ := h.places i p hpm
  have hid : id ∈ awaited i w.events := by
    rw [← h.registry i, ← hpid]
    exact List.mem_map_of_mem hpm
  have hacc := accepted_complete (w := w) i id cause
  have same := samePlaces_complete hp cause
  constructor
  case issued =>
    intro j x hx
    rw [hacc] at hx
    obtain ⟨n, hn, hi⟩ := h.issued j x hx
    exact ⟨n, by simpa using hn, by simpa using hi⟩
  case nodup => intro j; rw [hacc]; exact h.nodup j
  case sole =>
    intro j j' x hx hx'
    rw [hacc] at hx hx'
    exact h.sole j j' x hx hx'
  case registry =>
    intro j
    rw [awaited_complete hid, pendingOf_complete hp]
    split
    · rename_i hj
      subst hj
      rw [← h.registry j, List.filter_map]
      rfl
    · exact h.registry j
  case places =>
    intro j q hq
    exact h.places_of_same same (mem_pendingOf_complete hp hq).1
  case outcomes =>
    intro k call hk
    rw [complete_calls_get? hp] at hk
    rw [hacc, ending?_complete hid]
    split at hk
    · rename_i hkp
      subst hkp
      rw [hplace] at hk
      cases hk
      refine ⟨?_, by simp [hpi, hpid', hpid]⟩
      exact (h.outcomes _ _ hplace).1
    · rename_i hkp
      obtain ⟨ha, ho⟩ := h.outcomes k call hk
      refine ⟨ha, ?_⟩
      rw [if_neg, ho]
      intro hf
      obtain ⟨hi, hx⟩ := hf
      exact hkp (h.unique _ _ _ _ hk hplace (by rw [hpi, hi]) (by rw [hpid', hpid, hx]))
  case unique =>
    intro k k' call call' hk hk' hi hx
    exact h.unique_of_same same hk hk' hi hx
  case placed =>
    intro j x hx
    rw [hacc] at hx
    exact h.placed_of_same same hx
  case watched =>
    intro j q hq _
    obtain ⟨hqm, hne⟩ := mem_pendingOf_complete hp hq
    obtain ⟨job, hk, hc⟩ := h.watched j q hqm fun heq => hne (by simpa using heq)
    -- the deadline that is cancelled belongs to the call that has ended
    have hd : q.deadline ≠ p.deadline := by
      intro hd
      obtain ⟨hj, hqid⟩ := h.deadlines j i q hqm p hpm hd
      exact hne ⟨hj, hqid.trans hpid⟩
    refine ⟨job, ?_, hc⟩
    rw [complete_tasks_get? hp, if_neg hd, hk]
  case deadlines =>
    intro j j' q hq q' hq' hd
    exact h.deadlines j j' q (mem_pendingOf_complete hp hq).1 q'
      (mem_pendingOf_complete hp hq').1 hd

theorem complete {i : CallerId} {id : MessageId} (h : w.Ledger (some (i, id))) (cause : Cause) :
    (w.complete i id cause).Ledger none := by
  cases hp : (w.callers.get? i).bind (·.pending? id) with
  | none => exact h.complete_idle hp cause
  | some p => exact h.complete_pending hp cause

/-! ## New calls -/

/-- An id that is issued now is that of no call. -/
theorem not_accepted (h : w.Ledger spare) (distinct : w.mint.2.ids.Distinct) (i : CallerId) :
    w.mint.1 ∉ accepted i w.events := by
  intro hid
  obtain ⟨n, hn, hi⟩ := h.issued i _ hid
  have := distinct n (Nat.lt_succ_of_lt hn) w.ids.issued (Nat.lt_succ_self _) hi
  omega

theorem mem_accepted_accept {i j : CallerId} {m : Message} {id x : MessageId}
    {timeout : Duration} : x ∈ accepted j (w.mint.2.accept i m id timeout).2.events ↔
      (i = j ∧ x = id) ∨ x ∈ accepted j w.events := by
  simp only [accept_keeps, mint_keeps, accepted]
  split
  · rename_i hj
    simp [hj]
  · rename_i hj
    simp [hj]

theorem ending?_accept (i j : CallerId) (m : Message) (id x : MessageId) (timeout : Duration) :
    ending? j x (w.mint.2.accept i m id timeout).2.events = ending? j x w.events := by
  simp [ending?]

/-- A new call is the latest one in the registry of its caller. -/
theorem pendingOf_accept {i : CallerId} {c : Caller} (hc : w.callers.get? i = some c) (m : Message)
    (id : MessageId) (timeout : Duration) (j : CallerId) :
    (w.mint.2.accept i m id timeout).2.pendingOf j =
      if j = i then ⟨id, w.calls.next, w.tasks.next⟩ :: w.pendingOf j else w.pendingOf j := by
  simp only [pendingOf, accept_keeps, mint_keeps, Table.get?_modify]
  split
  · rename_i hj
    subst hj
    simp [hc]
  · rfl

theorem mem_pendingOf_accept {i j : CallerId} {c : Caller} (hc : w.callers.get? i = some c)
    {m : Message} {id : MessageId} {timeout : Duration} {q : PendingCall}
    (hq : q ∈ (w.mint.2.accept i m id timeout).2.pendingOf j) :
    (j = i ∧ q = ⟨id, w.calls.next, w.tasks.next⟩) ∨ q ∈ w.pendingOf j := by
  rw [pendingOf_accept hc] at hq
  split at hq
  · rename_i hj
    exact (List.mem_cons.mp hq).imp (fun he => ⟨hj, he⟩) fun hm => hm
  · exact .inr hq

theorem awaited_accept {i : CallerId} {id : MessageId} (strange : id ∉ accepted i w.events)
    (m : Message) (timeout : Duration) (j : CallerId) :
    awaited j (w.mint.2.accept i m id timeout).2.events =
      if j = i then id :: awaited j w.events else awaited j w.events := by
  simp only [awaited, accept_events, mint_events, accepted, ending?]
  by_cases hj : j = i
  · subst hj
    rw [if_pos rfl, if_pos rfl, List.filter_cons_of_pos (by rw [ending?_eq_none strange]; rfl)]
  · rw [if_neg hj, if_neg (Ne.symm hj)]

theorem accept_calls_get? (i : CallerId) (m : Message) (id : MessageId) (timeout : Duration)
    (k : CallId) : (w.mint.2.accept i m id timeout).2.calls.get? k =
      if k = w.calls.next then some { caller := i, id := id } else w.calls.get? k := by
  simp

theorem sub_accept (tidy : w.Tidy) (i : CallerId) (m : Message) (id : MessageId)
    (timeout : Duration) : w.tasks.Sub (w.mint.2.accept i m id timeout).2.tasks := by
  simp only [accept_keeps, mint_keeps]
  exact ((Table.Sub.refl _).insert tidy.tasks _).insert (tidy.tasks.insert _) _

/-- An accepted call waits in a place of its own. -/
theorem accept {i : CallerId} {c : Caller} (h : w.Ledger none) (tidy : w.Tidy)
    (distinct : w.mint.2.ids.Distinct) (hc : w.callers.get? i = some c) (m : Message)
    (timeout : Duration) : (w.mint.2.accept i m w.mint.1 timeout).2.Ledger none := by
  have hnew := h.not_accepted distinct
  generalize hid : w.mint.1 = id at hnew
  have hold : ∀ k call, w.calls.get? k = some call →
      (w.mint.2.accept i m id timeout).2.calls.get? k = some call := by
    intro k call hk
    rw [accept_calls_get?, if_neg (Nat.ne_of_lt (tidy.calls.lt hk)), hk]
  have hlt : ∀ j, ∀ q ∈ w.pendingOf j, q.deadline ≠ w.tasks.next := by
    intro j q hq
    obtain ⟨job, hk, _⟩ := h.watched j q hq (by simp)
    exact Nat.ne_of_lt (tidy.tasks.lt hk)
  constructor
  case issued =>
    intro j x hx
    simp only [accept_keeps]
    rcases mem_accepted_accept.mp hx with ⟨-, rfl⟩ | hx
    · exact ⟨w.ids.issued, Nat.lt_succ_self _, hid⟩
    · obtain ⟨n, hn, hi⟩ := h.issued j x hx
      exact ⟨n, Nat.lt_succ_of_lt hn, hi⟩
  case nodup =>
    intro j
    simp only [accept_events, mint_events, accepted]
    split
    · exact List.nodup_cons.mpr ⟨hnew j, h.nodup j⟩
    · exact h.nodup j
  case sole =>
    intro j j' x hx hx'
    rcases mem_accepted_accept.mp hx with ⟨rfl, rfl⟩ | hm <;>
      rcases mem_accepted_accept.mp hx' with ⟨rfl, hid'⟩ | hm'
    · rfl
    · exact absurd hm' (hnew _)
    · exact absurd (hid' ▸ hm) (hnew _)
    · exact h.sole j j' x hm hm'
  case registry =>
    intro j
    rw [pendingOf_accept hc, awaited_accept (hnew i)]
    split
    · rw [List.map_cons, h.registry j]
    · exact h.registry j
  case places =>
    intro j q hq
    rcases mem_pendingOf_accept hc hq with ⟨rfl, rfl⟩ | hq
    · exact ⟨{ caller := j, id := id }, by simp, rfl, rfl⟩
    · obtain ⟨call, hk, hi⟩ := h.places j q hq
      exact ⟨call, hold _ _ hk, hi⟩
  case outcomes =>
    intro k call hk
    rw [ending?_accept, mem_accepted_accept]
    rw [accept_calls_get?] at hk
    split at hk
    · cases hk
      simp [ending?_eq_none (hnew i)]
    · obtain ⟨ha, ho⟩ := h.outcomes k call hk
      exact ⟨.inr ha, ho⟩
  case unique =>
    intro k k' call call' hk hk' hi hx
    rw [accept_calls_get?] at hk hk'
    split at hk <;> split at hk'
    · rename_i h1 h2
      exact h1.trans h2.symm
    · cases hk
      exact absurd (hx ▸ (h.outcomes k' call' hk').1) (hnew _)
    · cases hk'
      exact absurd (hx ▸ (h.outcomes k call hk).1) (hnew _)
    · exact h.unique k k' call call' hk hk' hi hx
  case placed =>
    intro j x hx
    rcases mem_accepted_accept.mp hx with ⟨hj, rfl⟩ | hx
    · exact ⟨w.calls.next, { caller := i, id := x }, by simp, hj, rfl⟩
    · obtain ⟨k, call, hk, hc⟩ := h.placed j x hx
      exact ⟨k, call, hold _ _ hk, hc⟩
  case watched =>
    intro j q hq _
    rcases mem_pendingOf_accept hc hq with ⟨rfl, rfl⟩ | hq
    · exact ⟨.deadline j id timeout, by simp, rfl⟩
    · obtain ⟨job, hk, hc⟩ := h.watched j q hq (by simp)
      exact ⟨job, sub_accept tidy i m id timeout _ _ hk, hc⟩
  case deadlines =>
    intro j j' q hq q' hq' hd
    rcases mem_pendingOf_accept hc hq with ⟨rfl, rfl⟩ | hm <;>
      rcases mem_pendingOf_accept hc hq' with ⟨rfl, rfl⟩ | hm'
    · exact ⟨rfl, rfl⟩
    · exact absurd hd.symm (hlt j' q' hm')
    · exact absurd hd (hlt j q hm)
    · exact h.deadlines j j' q hm q' hm' hd

theorem mint (h : w.Ledger spare) : w.mint.2.Ledger spare :=
  h.grow rfl (Nat.le_succ _) (fun _ => rfl) (fun _ => rfl) rfl (.refl _)

theorem invoke (h : w.Ledger none) (tidy : w.Tidy) (i : CallerId) (method : Address)
    (payload : Option Payload) (options : CallOptions)
    (distinct : (w.invoke i method payload options).2.ids.Distinct) :
    (w.invoke i method payload options).2.Ledger none := by
  rcases invoke_cases w i method payload options with
    ⟨e, he⟩ | ⟨e, he⟩ | ⟨c, m, hc, _, _, _, he⟩
  · rw [he]; exact h
  · rw [he]; exact h.mint
  · rw [he] at distinct ⊢
    exact h.accept tidy distinct hc m _

theorem isHeld (h : w.Ledger none) {i : CallerId} {p : PendingCall} (hp : p ∈ w.pendingOf i) :
    w.isHeld (.caller i) = true := by
  obtain ⟨job, hk, hc⟩ := h.watched i p hp (by simp)
  refine Table.any_of_get? hk ?_
  simp [Job.holds_of_call hc]

theorem remove (h : w.Ledger none) (tidy : w.Tidy) {e : EngineId} (unheld : w.isHeld e = false)
    (p : Seat) (side : Side) : (w.remove e p side).Ledger none := by
  have hnone : ∀ i, e = .caller i → w.pendingOf i = [] := by
    intro i he
    refine List.eq_nil_iff_forall_not_mem.mpr fun q hq => ?_
    rw [he, h.isHeld hq] at unheld
    cases unheld
  have hidle : ∀ i c, e = .caller i → w.callers.get? i = some c → c.pending = [] := by
    intro i c he hc
    simpa [pendingOf, hc] using hnone i he
  refine h.grow (by simp) (by simp) (fun i => ?_) (fun k => ?_) (by simp) ?_
  · rw [pendingOf, remove_callers]
    split
    · rename_i he
      rw [hnone i he]
      cases w.callers.get? i <;> rfl
    · rfl
  · rw [remove_idle p side hidle]
  · rcases remove_tasks w e p side with ⟨-, -, -, tasks⟩ | tasks
    · exact tasks ▸ (Table.Sub.refl _).insert tidy.tasks _
    · rw [tasks]

/-! ## Moves and outsets -/

end Ledger

end World

theorem World.onward_quiet (w : World) (t : TaskId) (u : Use) :
    ∀ e ∈ (w.onward t u).1, isEntry e = false := by
  cases u with
  | request i id m =>
    simp only [onward]
    split <;> simp [isEntry]
  | serve s method h => simp [onward, isEntry]

theorem Passes.quiet {w : World} {t : TaskId} {j : Job} {es : List Event} {next : Option Job}
    (h : Passes w t j es next) : j.call? = none ∧ ∀ e ∈ es, isEntry e = false := by
  cases h with
  | unexpected i c m caller alive unasked =>
    refine ⟨rfl, ?_⟩
    cases c.reportsUnexpected <;> simp [isEntry]
  | useAtOnce u registered => exact ⟨rfl, w.onward_quiet t u⟩
  | use u registered => exact ⟨rfl, w.onward_quiet t u⟩
  | seatless u j job seat =>
    rcases job with rfl | rfl <;> exact ⟨rfl, by simp⟩
  | sendRefused l m after s refusal other =>
    cases after <;> simp [Job.call?, AfterSend.events, isEntry]
  | unregisterRefused l source sink listener after s refusal =>
    cases after <;> simp [Job.call?, AfterUnregister.events, isEntry]
  | _ => simp [Job.call?, isEntry]

theorem Dozes.quiet {w : World} {j : Job} {ms : Nat} (h : Dozes w j ms) : j.call? = none := by
  cases h <;> rfl

theorem Replies.quiet {w : World} {s : ServerId} {m : Message} {j : Job} {es : List Event}
    {draft : Draft} {payload : Option Payload} (h : Replies w s m j es draft payload) :
    j.call? = none ∧ ∀ e ∈ es, isEntry e = false := by
  cases h <;> simp [Job.call?, isEntry]

namespace World.Ledger

variable {w : World}

theorem move {a b : Option TaskId × World} (hm : Move a b) (tidy : a.2.Tidy)
    (distinct : b.2.ids.Distinct) (h : a.2.Ledger none) : b.2.Ledger none := by
  cases hm with
  | remove seat unowned alive unheld => exact h.remove tidy unheld _ _
  | pass free passes =>
    have hj := h.unpark
    rw [passes.quiet.1] at hj
    exact hj.proceed free passes.quiet.2 _
  | doze free dozes =>
    have hj := h.unpark
    rw [dozes.quiet] at hj
    exact hj.sleep free ..
  | rest free => exact Ledger.sleep h.unpark free ..
  | @arm w t i id timeout free =>
    refine h.quiet rfl (Nat.le_refl _) (fun _ => rfl) (fun _ => rfl) (fun _ => rfl)
      (fun _ _ => rfl) fun i' p _ hs hw => ?_
    obtain ⟨job, hk, hc⟩ := hw hs
    simp only [park_keeps, Table.get?_set] at hk
    by_cases hpt : p.deadline = t
    · rw [if_pos hpt] at hk
      cases hk
      exact ⟨.expire i id timeout, by simp [hpt], hc⟩
    · rw [if_neg hpt] at hk
      exact ⟨job, by simpa [hpt] using hk, hc⟩
  | expire free => exact Ledger.complete h.unpark _
  | @answered w t i c m id free caller alive answers =>
    refine ((Ledger.record h.unpark rfl).weaken.complete _).recordAll ?_
    split <;> simp [isEntry]
  | @reply w t s v m a j es draft payload free server replies finish =>
    have hj := h.unpark
    rw [replies.quiet.1] at hj
    exact (((hj.recordAll replies.quiet.2).mint.record rfl).record rfl).park (by simpa using free) _
  | mute free server replies finish =>
    have hj := h.unpark
    rw [replies.quiet.1] at hj
    exact (hj.recordAll replies.quiet.2).mint
  | claim free seat vacant =>
    exact (Ledger.modifySeat h.unpark ..).park (by simpa using free) _
  | wait free seat attempting =>
    exact (Ledger.modifySeat h.unpark ..).park (by simpa using free) _
  | @enrol w t r u hub free registration =>
    refine (Ledger.settleCell ?_ ..).proceed (by simpa using free) (w.onward_quiet t u) _
    exact (Ledger.withHub h.unpark hub).record rfl
  | failRequest free refusal =>
    exact ((Ledger.record h.unpark rfl).settleCell ..).weaken.complete _
  | failServe free refusal =>
    exact (((Ledger.record h.unpark rfl).settleCell ..).modifyServer ..).record rfl
  | enlist free registration => exact (Ledger.withHub h.unpark _).record rfl
  | unlist free unregistration =>
    refine (Ledger.withHub h.unpark _).recordAll ?_
    rename_i after _
    cases after <;> simp [AfterUnregister.events, isEntry]
  | refuse free refusal => exact (Ledger.weaken h.unpark).complete _
  | @broadcast w t l m after free accepted =>
    refine (Ledger.broadcast h.unpark tidy.unpark m).recordAll ?_
    cases after <;> simp [AfterSend.events, isEntry]
  | await free place pending => exact (Ledger.setWaiter h.unpark place _).park free _
  | addHandler free server vacant => exact (Ledger.modifyServer h.unpark ..).park free _
  | closeListening free seat opened registered =>
    exact (Ledger.modifySeat h.unpark ..).park (by simpa using free) _
  | closeDeaf free seat opened unregistered =>
    exact (Ledger.modifySeat h.unpark ..).record rfl
  | post free posting linked onTopic finish =>
    exact ((Ledger.mint h.unpark).record rfl).park free _
  | postInvalid free posting linked onTopic finish => exact (Ledger.mint h.unpark).record rfl
  | @call w v t i method payload options accepted free invoked =>
    have hi := Ledger.invoke h.unpark tidy.unpark i method payload options (by rwa [invoked])
    have hf := invoke_free free tidy.lt i method payload options
    rw [invoked] at hi hf
    exact hi.park hf _
  | @callRefused w v t i method payload options e free invoked =>
    have hi := Ledger.invoke h.unpark tidy.unpark i method payload options (by rwa [invoked])
    rw [invoked] at hi
    exact hi.record rfl

theorem outset {a : Act} {b : Option TaskId × World} (ho : Outset w a b) (tidy : w.Tidy)
    (distinct : b.2.ids.Distinct) (h : w.Ledger none) : b.2.Ledger none := by
  cases ho with
  | take t j ready task =>
    refine h.grow rfl (Nat.le_refl _) (fun _ => rfl) (fun _ => rfl) rfl fun k x hk => ?_
    simp only [park_keeps, without_keeps, Table.get?_set, Table.get?_erase]
    split
    · rename_i hkt
      rw [← task, ← hkt]
      exact hk
    · exact hk
  | discard t j ready task =>
    refine h.quiet rfl (Nat.le_refl _) (fun _ => rfl) (fun _ => rfl) (fun _ => rfl)
      (fun _ _ => rfl) fun i p _ hs hw => ?_
    obtain ⟨job, hk, hc⟩ := hw hs
    -- a task that was cancelled watches no call
    have hne : p.deadline ≠ t := by
      intro hpt
      rw [hpt, task] at hk
      cases hk
    refine ⟨job, ?_, hc⟩
    simpa [hne] using hk
  | stale t ready task => exact h.of_same rfl rfl rfl rfl rfl
  | enter o allowed =>
    have hr : { w with tasks := w.tasks.reserve.2 }.Ledger none :=
      h.grow rfl (Nat.le_refl _) (fun _ => rfl) (fun _ => rfl) rfl fun k x hk => hk
    exact hr.park (by simpa using tidy.tasks.next) _
  | spawn o allowed => exact h.spawn tidy _
  | inbound l m => exact h.spawn tidy _
  | addLink address => exact h.of_same rfl rfl rfl rfl rfl
  | setFault l a fault => exact h.of_same rfl rfl rfl rfl rfl
  | closeLink l => exact h.of_same rfl rfl rfl rfl rfl
  | addCaller l link reports linked =>
    refine h.grow rfl (Nat.le_refl _) (fun i => ?_) (fun _ => rfl) rfl (.refl _)
    simp only [pendingOf, Table.get?_insert]
    split
    · rename_i hi
      rw [hi, tidy.callers.next]
      rfl
    · rfl
  | addServer l link linked => exact h.of_same rfl rfl rfl rfl rfl
  | hold e owned =>
    simp only [World.hold]
    exact Ledger.modifySeat h _ e
  | drop e side owned =>
    dsimp only
    exact Ledger.modifySeat h _ e
  | invoke i method payload options owned => exact h.invoke tidy i method payload options distinct
  | unserve s v v' method hd server unserved => exact h.modifyServer ..
  | fire due next =>
    exact h.of_same (by simp [World.fire]) (by simp [World.fire]) (by simp [World.fire])
      (by simp [World.fire]) (by simp [World.fire])
  | clock wall => exact h.of_same rfl rfl rfl rfl rfl
  | idle c same starts => exact h

end World.Ledger

theorem World.Grows.distinct {w v : World} (h : w.Grows v) (distinct : v.ids.Distinct) :
    w.ids.Distinct := by
  intro a ha b hb hab
  refine distinct a (Nat.lt_of_lt_of_le ha h.issued) b (Nat.lt_of_lt_of_le hb h.issued) ?_
  rw [h.issue, hab]

theorem World.Grows.hasIssued {w v : World} (h : w.Grows v) {id : MessageId}
    (issued : w.ids.HasIssued id) : v.ids.HasIssued id := by
  obtain ⟨n, hn, rfl⟩ := issued
  exact ⟨n, Nat.lt_of_lt_of_le hn h.issued, by rw [h.issue]⟩

theorem World.Ledger.kept :
    Kept (fun _ _ => True) (fun a => a.2.ids.Distinct → a.2.Ledger none) where
  outset tidy ho _ before distinct :=
    Ledger.outset ho tidy distinct (before ((ho.grows tidy).distinct distinct))
  move tidy hm before distinct :=
    Ledger.move hm tidy distinct (before (hm.grows.distinct distinct))

theorem World.ledger_after {w : World} {as : List Act} (new : w.IsNew) (run : w.CanRun as)
    (distinct : (w.after as).ids.Distinct) : (w.after as).Ledger none :=
  (Ledger.kept.run run (run.mono fun _ _ _ => trivial) (.new new) fun _ => .new new).2 distinct

/-- **Every call ends once.** After any run, with any messages from anywhere: a caller's pending
calls are those that it accepted and that nothing has ended; an accepted call has one place, which
holds the outcome of the first thing that ended it, or nothing as long as nothing has; and what
comes later only leaves its trace in the history. -/
theorem calls_end_once {w : World} {as : List Act} (new : w.IsNew) (run : w.CanRun as)
    (distinct : (w.after as).ids.Distinct) :
    let v := w.after as
    (∀ i, (accepted i v.events).Nodup ∧
      (v.pendingOf i).map (·.id) = awaited i v.events ∧
      (v.pendingOf i).length + (completed i v.events).length = (accepted i v.events).length) ∧
    (∀ i, ∀ id ∈ accepted i v.events, ∃ k call, v.calls.get? k = some call ∧ call.caller = i ∧
      call.id = id ∧ call.outcome = (ending? i id v.events).map Cause.outcome ∧
      ∀ k' call', v.calls.get? k' = some call' → call'.caller = i → call'.id = id → k' = k) ∧
    (∀ i id first, ending? i id v.events = some first →
      (∀ cause, v.complete i id cause = v.record (.ended i id cause)) ∧
      (∀ c m, v.callers.get? i = some c → m.answers? = some id →
        v.receive i c m = (v.record (.ended i id (.answered m))).reportUnexpected i c m) ∧
      ∀ bs, v.CanRun bs → ending? i id (v.after bs).events = some first) ∧
    ∀ i method payload options a u, v.invoke i method payload options = (.ok a, u) →
      u.calls.get? a.call = some { caller := i, id := a.id } ∧
      accepted i u.events = a.id :: accepted i v.events ∧
      (u.pendingOf i).map (·.id) = a.id :: (v.pendingOf i).map (·.id) := by
  intro v
  have h := World.ledger_after new run distinct
  have tidy := (World.Ledger.kept.run run (run.mono fun _ _ _ => trivial) (.new new)
    fun _ => .new new).1
  have idle : ∀ i id first, ending? i id v.events = some first →
      (v.callers.get? i).bind (·.pending? id) = none := by
    intro i id first hf
    cases hp : (v.callers.get? i).bind (·.pending? id) with
    | none => rfl
    | some p =>
      obtain ⟨hpm, hpid⟩ := World.Ledger.mem_pendingOf hp
      have hw : id ∈ awaited i v.events := by
        rw [← h.registry i, ← hpid]
        exact List.mem_map_of_mem hpm
      simp [awaited, hf] at hw
  refine ⟨fun i => ⟨h.nodup i, h.registry i, ?_⟩, fun i id hid => ?_, fun i id first hf =>
    ⟨fun cause => World.complete_of_none (idle i id first hf) cause, fun c m hc hm => ?_,
      fun bs hb => ending?_suffix (World.grows_after tidy hb).2.events hf⟩, ?_⟩
  · have hsum := awaited_add_completed i v.events
    rwa [← h.registry i, List.length_map] at hsum
  · obtain ⟨k, call, hk, hi, hcid⟩ := h.placed i id hid
    have ho := (h.outcomes k call hk).2
    rw [hi, hcid] at ho
    refine ⟨k, call, hk, hi, hcid, ho, fun k' call' hk' hi' hid' => ?_⟩
    exact h.unique k' k call' call hk' hk (hi'.trans hi.symm) (hid'.trans hcid.symm)
  · have hp := idle i id first hf
    rw [hc, Option.bind_some] at hp
    rw [World.receive, hm]
    simp only [hp, Option.isSome_none, Bool.false_eq_true, if_false]
    rw [World.complete_of_none (idle i id first hf)]
  · intro i method payload options a u hu
    rcases World.invoke_cases v i method payload options with
      ⟨e, he⟩ | ⟨e, he⟩ | ⟨c, m, hc, _, _, _, he⟩
    · rw [he] at hu; cases hu
    · rw [he] at hu; cases hu
    · rw [he] at hu
      cases hu
      refine ⟨?_, ?_, ?_⟩
      · simp
      · simp [accepted]
      · simp [World.pendingOf, hc]

/-- A late answer leaves the call as its deadline ended it. -/
theorem call_ends_at_its_deadline :
    let ids : MessageId.Source := { issue := fun n => .stamped 1 (BitVec.ofNat 74 n) }
    let answer : Message :=
      ⟨(Draft.response ⟨"client", 1, 1, 0⟩ ⟨"server", 2, 1, 1⟩ (ids.issue 0)).identified
        (ids.issue 7), none⟩
    let w : World := { wall := 0, ids := ids }
    let as : List Act := [.command (.addLink ⟨"client", 1, 1, 0⟩), .command (.addCaller 0 false),
      .command (.invoke 0 ⟨"server", 2, 1, 1⟩ none .standard), .turn 0, .turn 1, .fire 10000,
      .turn 0, .inbound (.engine (.caller 0)) answer, .turn 2]
    w.IsNew ∧ w.CanRun as ∧ (w.after as).ids.Distinct ∧
      ∃ k call, (w.after as).calls.get? k = some call ∧ call.caller = 0 ∧ call.id = ids.issue 0 ∧
        call.outcome = some (.error (.deadlineExceeded (.ofMillis 10000))) := by
  intro ids answer w as
  have new : w.IsNew := ⟨0, ids, rfl⟩
  have run : w.CanRun as := by decide +kernel
  have distinct : (w.after as).ids.Distinct := by
    intro a ha b hb _
    have hn : (w.after as).ids.issued = 1 := by decide +kernel
    omega
  refine ⟨new, run, distinct, ?_⟩
  have accepts : ids.issue 0 ∈ accepted 0 (w.after as).events := by decide +kernel
  have ends : ending? 0 (ids.issue 0) (w.after as).events =
      some (.lapsed (.ofMillis 10000)) := by decide +kernel
  obtain ⟨k, call, hk, hi, hid, ho, _⟩ :=
    (calls_end_once new run distinct).2.1 0 (ids.issue 0) accepts
  exact ⟨k, call, hk, hi, hid, by rw [ho, ends]; rfl⟩

end Switchboard
