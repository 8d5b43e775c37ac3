import Switchboard.World.Commands

/-! # What a small change leaves alone

The world is one record, and every action of the library is put together from
a few small changes of it: an event is recorded, a task is woken, parked or
cancelled, a seat or a call is changed. For each of them this file says which
parts of the world stay as they are, as rules for `simp`, and what becomes of
the part that it touches, entry by entry. No later proof opens one of them.
-/

namespace Switchboard

namespace Table

/-- No entry stands under a key that was not given out. -/
def Fresh (t : Table α) : Prop := ∀ k, t.next ≤ k → t.get? k = none

theorem fresh_empty : Fresh ({} : Table α) := fun _ _ => rfl

theorem Fresh.lt {t : Table α} (h : t.Fresh) {k : Nat} {a : α} (hk : t.get? k = some a) :
    k < t.next := by
  rcases Nat.lt_or_ge k t.next with hl | hg
  · exact hl
  · rw [h k hg] at hk
    cases hk

theorem Fresh.next {t : Table α} (h : t.Fresh) : t.get? t.next = none := h _ (Nat.le_refl _)

theorem Fresh.insert {t : Table α} (h : t.Fresh) (a : α) : (t.insert a).2.Fresh := by
  intro k hk
  have hk' : t.next + 1 ≤ k := hk
  rw [get?_insert, if_neg (by omega), h k (by omega)]

theorem Fresh.erase {t : Table α} (h : t.Fresh) (k : Nat) : (t.erase k).Fresh := by
  intro j hj
  rw [get?_erase]
  split
  · rfl
  · exact h j hj

theorem Fresh.set {t : Table α} (h : t.Fresh) {k : Nat} (hk : k < t.next) (a : α) :
    (t.set k a).Fresh := by
  intro j hj
  have hj' : t.next ≤ j := hj
  rw [get?_set, if_neg (by omega), h j hj']

theorem Fresh.modify {t : Table α} (h : t.Fresh) (k : Nat) (f : α → α) :
    (t.modify k f).Fresh := by
  intro j hj
  rw [get?_modify, h j hj]
  simp

theorem Fresh.reserve {t : Table α} (h : t.Fresh) : t.reserve.2.Fresh := by
  intro k hk
  have hk' : t.next + 1 ≤ k := hk
  exact h k (by omega)

@[simp] theorem insert_fst (t : Table α) (a : α) : (t.insert a).1 = t.next := rfl

@[simp] theorem insert_next (t : Table α) (a : α) : (t.insert a).2.next = t.next + 1 := rfl

@[simp] theorem reserve_next (t : Table α) : t.reserve.2.next = t.next + 1 := rfl

@[simp] theorem set_next (t : Table α) (k : Nat) (a : α) : (t.set k a).next = t.next := rfl

@[simp] theorem modify_next (t : Table α) (k : Nat) (f : α → α) : (t.modify k f).next = t.next :=
  rfl

@[simp] theorem get?_reserve (t : Table α) (k : Nat) : t.reserve.2.get? k = t.get? k := rfl

def Sub (a b : Table α) : Prop := ∀ k x, a.get? k = some x → b.get? k = some x

@[refl] theorem Sub.refl (a : Table α) : a.Sub a := fun _ _ h => h

theorem Sub.set {a b : Table α} (h : a.Sub b) {k : Nat} (free : a.get? k = none) (x : α) :
    a.Sub (b.set k x) := by
  intro j y hj
  rw [get?_set, if_neg (by rintro rfl; rw [free] at hj; cases hj), h j y hj]

theorem Sub.insert {a b : Table α} (h : a.Sub b) (fresh : b.Fresh) (x : α) :
    a.Sub (b.insert x).2 := by
  intro j y hj
  have hb := h j y hj
  rw [get?_insert, if_neg (Nat.ne_of_lt (fresh.lt hb)), hb]

theorem mem_of_get? {t : Table α} {k : Nat} {a : α} (h : t.get? k = some a) :
    (k, a) ∈ t.entries := by
  obtain ⟨n, l⟩ := t
  simp only [get?] at h ⊢
  induction l with
  | nil => simp at h
  | cons e l ih =>
    obtain ⟨j, b⟩ := e
    by_cases hj : k = j
    · subst hj
      rw [List.lookup_cons_self] at h
      cases h
      exact List.mem_cons_self
    · have hb : (k == j) = false := by simpa using hj
      rw [List.lookup_cons, hb] at h
      exact List.mem_cons_of_mem _ (ih h)

theorem any_of_get? {t : Table α} {k : Nat} {a : α} {p : α → Bool} (h : t.get? k = some a)
    (ha : p a = true) : t.any p = true :=
  List.any_eq_true.mpr ⟨_, mem_of_get? h, ha⟩

end Table

namespace World

def recordAll (w : World) (es : List Event) : World := es.foldl record w

@[simp] theorem recordAll_nil (w : World) : w.recordAll [] = w := rfl

@[simp] theorem recordAll_cons (w : World) (e : Event) (es : List Event) :
    w.recordAll (e :: es) = (w.record e).recordAll es := rfl

@[simp] theorem record_keeps (w : World) (e : Event) :
    (w.record e).now = w.now ∧ (w.record e).wall = w.wall ∧ (w.record e).ids = w.ids ∧
    (w.record e).hub = w.hub ∧ (w.record e).links = w.links ∧ (w.record e).callers = w.callers ∧
    (w.record e).servers = w.servers ∧ (w.record e).calls = w.calls ∧
    (w.record e).tasks = w.tasks ∧ (w.record e).ready = w.ready ∧
    (w.record e).timers = w.timers ∧ (w.record e).events = (w.now, e) :: w.events :=
  ⟨rfl, rfl, rfl, rfl, rfl, rfl, rfl, rfl, rfl, rfl, rfl, rfl⟩

@[simp] theorem recordAll_keeps (w : World) (es : List Event) :
    (w.recordAll es).now = w.now ∧ (w.recordAll es).wall = w.wall ∧
    (w.recordAll es).ids = w.ids ∧ (w.recordAll es).hub = w.hub ∧
    (w.recordAll es).links = w.links ∧ (w.recordAll es).callers = w.callers ∧
    (w.recordAll es).servers = w.servers ∧ (w.recordAll es).calls = w.calls ∧
    (w.recordAll es).tasks = w.tasks ∧ (w.recordAll es).ready = w.ready ∧
    (w.recordAll es).timers = w.timers := by
  induction es generalizing w with
  | nil => simp
  | cons e es ih => simpa using ih (w.record e)

theorem recordAll_tasks (w : World) (es : List Event) : (w.recordAll es).tasks = w.tasks := by
  simp

theorem recordAll_ready (w : World) (es : List Event) : (w.recordAll es).ready = w.ready := by
  simp

theorem recordAll_timers (w : World) (es : List Event) : (w.recordAll es).timers = w.timers := by
  simp

theorem recordAll_events (w : World) (es : List Event) :
    (w.recordAll es).events = (es.map fun e => (w.now, e)).reverse ++ w.events := by
  induction es generalizing w with
  | nil => rfl
  | cons e es ih => simp [ih]

@[simp] theorem mint_keeps (w : World) :
    w.mint.2.now = w.now ∧ w.mint.2.wall = w.wall ∧ w.mint.2.hub = w.hub ∧
    w.mint.2.links = w.links ∧ w.mint.2.callers = w.callers ∧ w.mint.2.servers = w.servers ∧
    w.mint.2.calls = w.calls ∧ w.mint.2.tasks = w.tasks ∧ w.mint.2.ready = w.ready ∧
    w.mint.2.timers = w.timers ∧ w.mint.2.events = w.events :=
  ⟨rfl, rfl, rfl, rfl, rfl, rfl, rfl, rfl, rfl, rfl, rfl⟩

theorem mint_events (w : World) : w.mint.2.events = w.events := rfl

@[simp] theorem mint_ids (w : World) :
    w.mint.1 = w.ids.issue w.ids.issued ∧ w.mint.2.ids.issue = w.ids.issue ∧
    w.mint.2.ids.issued = w.ids.issued + 1 :=
  ⟨rfl, rfl, rfl⟩

@[simp] theorem wake_keeps (w : World) (t : TaskId) :
    (w.wake t).now = w.now ∧ (w.wake t).wall = w.wall ∧ (w.wake t).ids = w.ids ∧
    (w.wake t).hub = w.hub ∧ (w.wake t).links = w.links ∧ (w.wake t).callers = w.callers ∧
    (w.wake t).servers = w.servers ∧ (w.wake t).calls = w.calls ∧
    (w.wake t).tasks = w.tasks ∧ (w.wake t).timers = w.timers ∧
    (w.wake t).events = w.events := by
  unfold wake
  split <;> simp

@[simp] theorem wakeAll_keeps (w : World) (ts : List TaskId) :
    (w.wakeAll ts).now = w.now ∧ (w.wakeAll ts).wall = w.wall ∧ (w.wakeAll ts).ids = w.ids ∧
    (w.wakeAll ts).hub = w.hub ∧ (w.wakeAll ts).links = w.links ∧
    (w.wakeAll ts).callers = w.callers ∧ (w.wakeAll ts).servers = w.servers ∧
    (w.wakeAll ts).calls = w.calls ∧ (w.wakeAll ts).tasks = w.tasks ∧
    (w.wakeAll ts).timers = w.timers ∧ (w.wakeAll ts).events = w.events := by
  induction ts generalizing w with
  | nil => simp [wakeAll]
  | cons t ts ih => simpa [wakeAll] using ih (w.wake t)

theorem wakeAll_servers (w : World) (ts : List TaskId) : (w.wakeAll ts).servers = w.servers := by
  simp

@[simp] theorem spawn_keeps (w : World) (j : Job) :
    (w.spawn j).1 = w.tasks.next ∧
    (w.spawn j).2.now = w.now ∧ (w.spawn j).2.wall = w.wall ∧ (w.spawn j).2.ids = w.ids ∧
    (w.spawn j).2.hub = w.hub ∧ (w.spawn j).2.links = w.links ∧
    (w.spawn j).2.callers = w.callers ∧ (w.spawn j).2.servers = w.servers ∧
    (w.spawn j).2.calls = w.calls ∧ (w.spawn j).2.tasks = (w.tasks.insert ⟨j, false⟩).2 ∧
    (w.spawn j).2.timers = w.timers ∧ (w.spawn j).2.events = w.events :=
  ⟨rfl, rfl, rfl, rfl, rfl, rfl, rfl, rfl, rfl, rfl, rfl, rfl⟩

@[simp] theorem park_keeps (w : World) (t : TaskId) (j : Job) :
    (w.park t j).now = w.now ∧ (w.park t j).wall = w.wall ∧ (w.park t j).ids = w.ids ∧
    (w.park t j).hub = w.hub ∧ (w.park t j).links = w.links ∧
    (w.park t j).callers = w.callers ∧ (w.park t j).servers = w.servers ∧
    (w.park t j).calls = w.calls ∧ (w.park t j).tasks = w.tasks.set t ⟨j, false⟩ ∧
    (w.park t j).ready = w.ready ∧ (w.park t j).timers = w.timers ∧
    (w.park t j).events = w.events :=
  ⟨rfl, rfl, rfl, rfl, rfl, rfl, rfl, rfl, rfl, rfl, rfl, rfl⟩

theorem park_events (w : World) (t : TaskId) (j : Job) : (w.park t j).events = w.events := rfl

theorem park_tasks_congr {w v : World} {t : TaskId} {j : Job} (same : v.tasks = w.tasks) :
    (v.park t j).tasks = w.tasks.set t ⟨j, false⟩ := by
  rw [park, same]

@[simp] theorem sleep_keeps (w : World) (t : TaskId) (ms : Nat) (j : Job) :
    (w.sleep t ms j).now = w.now ∧ (w.sleep t ms j).wall = w.wall ∧
    (w.sleep t ms j).ids = w.ids ∧ (w.sleep t ms j).hub = w.hub ∧
    (w.sleep t ms j).links = w.links ∧ (w.sleep t ms j).callers = w.callers ∧
    (w.sleep t ms j).servers = w.servers ∧ (w.sleep t ms j).calls = w.calls ∧
    (w.sleep t ms j).tasks = w.tasks.set t ⟨j, false⟩ ∧ (w.sleep t ms j).ready = w.ready ∧
    (w.sleep t ms j).events = w.events :=
  ⟨rfl, rfl, rfl, rfl, rfl, rfl, rfl, rfl, rfl, rfl, rfl⟩

theorem sleep_tasks (w : World) (t : TaskId) (ms : Nat) (j : Job) :
    (w.sleep t ms j).tasks = w.tasks.set t ⟨j, false⟩ := rfl

@[simp] theorem cancel_keeps (w : World) (t : TaskId) :
    (w.cancel t).now = w.now ∧ (w.cancel t).wall = w.wall ∧ (w.cancel t).ids = w.ids ∧
    (w.cancel t).hub = w.hub ∧ (w.cancel t).links = w.links ∧
    (w.cancel t).callers = w.callers ∧ (w.cancel t).servers = w.servers ∧
    (w.cancel t).calls = w.calls ∧ (w.cancel t).tasks.next = w.tasks.next ∧
    (w.cancel t).events = w.events := by
  unfold cancel
  split <;> simp [Table.set, Table.erase]

@[simp] theorem cancel_get? (w : World) (t k : TaskId) :
    (w.cancel t).tasks.get? k =
      if k = t then (w.tasks.get? k).map fun task => { task with cancelled := true }
      else w.tasks.get? k := by
  unfold cancel
  split
  · rename_i hn
    split
    · rename_i hk; subst hk; rw [hn]; rfl
    · rfl
  · rename_i task ht
    simp only [wake_keeps, Table.get?_set]
    split
    · rename_i hk; subst hk; rw [ht]; rfl
    · rfl

theorem Fresh.cancel {w : World} (h : w.tasks.Fresh) (t : TaskId) : (w.cancel t).tasks.Fresh := by
  intro k hk
  rw [cancel_get?, h k (by simpa using hk)]
  simp

/-! ## Seats -/

@[simp] theorem modifySeat_keeps (w : World) (f : Seat → Seat) (e : EngineId) :
    (w.modifySeat f e).now = w.now ∧ (w.modifySeat f e).wall = w.wall ∧
    (w.modifySeat f e).ids = w.ids ∧ (w.modifySeat f e).hub = w.hub ∧
    (w.modifySeat f e).links = w.links ∧ (w.modifySeat f e).calls = w.calls ∧
    (w.modifySeat f e).tasks = w.tasks ∧ (w.modifySeat f e).ready = w.ready ∧
    (w.modifySeat f e).timers = w.timers ∧ (w.modifySeat f e).events = w.events ∧
    (w.modifySeat f e).callers.next = w.callers.next ∧
    (w.modifySeat f e).servers.next = w.servers.next := by
  cases e <;> simp [modifySeat, Table.modify]

theorem modifySeat_events (w : World) (f : Seat → Seat) (e : EngineId) :
    (w.modifySeat f e).events = w.events := by simp

@[simp] theorem modifySeat_callers (w : World) (f : Seat → Seat) (e : EngineId) (i : CallerId) :
    (w.modifySeat f e).callers.get? i =
      if e = .caller i then (w.callers.get? i).map fun c => { c with seat := f c.seat }
      else w.callers.get? i := by
  cases e with
  | caller j => simp [modifySeat, eq_comm]
  | server s => simp [modifySeat]

@[simp] theorem modifySeat_servers (w : World) (f : Seat → Seat) (e : EngineId) (s : ServerId) :
    (w.modifySeat f e).servers.get? s =
      if e = .server s then (w.servers.get? s).map fun v => { v with seat := f v.seat }
      else w.servers.get? s := by
  cases e with
  | caller j => simp [modifySeat]
  | server s => simp [modifySeat, eq_comm]

@[simp] theorem modifySeat_seat? (w : World) (f : Seat → Seat) (e e' : EngineId) :
    (w.modifySeat f e).seat? e' = if e = e' then (w.seat? e').map f else w.seat? e' := by
  cases e' with
  | caller i => simp only [seat?, modifySeat_callers]; split <;> simp [Function.comp_def]
  | server s => simp only [seat?, modifySeat_servers]; split <;> simp [Function.comp_def]

@[simp] theorem modifySeat_isHeld (w : World) (f : Seat → Seat) (e e' : EngineId) :
    (w.modifySeat f e).isHeld e' = w.isHeld e' := by
  simp [isHeld]

theorem seat_of_modifySeat {w : World} {f : Seat → Seat} {e e' : EngineId} {q : Seat}
    (h : (w.modifySeat f e).seat? e' = some q) :
    ∃ p, w.seat? e' = some p ∧ (e = e' ∧ q = f p ∨ q = p) := by
  rw [modifySeat_seat?] at h
  split at h
  · rename_i own
    obtain ⟨p, hp, rfl⟩ := Option.map_eq_some_iff.mp h
    exact ⟨p, hp, .inl ⟨own, rfl⟩⟩
  · exact ⟨q, h, .inr rfl⟩

@[simp] theorem modifyServer_keeps (w : World) (s : ServerId) (f : Server → Server) :
    (w.modifyServer s f).now = w.now ∧ (w.modifyServer s f).wall = w.wall ∧
    (w.modifyServer s f).ids = w.ids ∧ (w.modifyServer s f).hub = w.hub ∧
    (w.modifyServer s f).links = w.links ∧ (w.modifyServer s f).callers = w.callers ∧
    (w.modifyServer s f).servers = w.servers.modify s f ∧
    (w.modifyServer s f).calls = w.calls ∧ (w.modifyServer s f).tasks = w.tasks ∧
    (w.modifyServer s f).ready = w.ready ∧ (w.modifyServer s f).timers = w.timers ∧
    (w.modifyServer s f).events = w.events :=
  ⟨rfl, rfl, rfl, rfl, rfl, rfl, rfl, rfl, rfl, rfl, rfl, rfl⟩

theorem modifyServer_events (w : World) (s : ServerId) (f : Server → Server) :
    (w.modifyServer s f).events = w.events := rfl

@[simp] theorem modifyCaller_keeps (w : World) (i : CallerId) (f : Caller → Caller) :
    (w.modifyCaller i f).now = w.now ∧ (w.modifyCaller i f).wall = w.wall ∧
    (w.modifyCaller i f).ids = w.ids ∧ (w.modifyCaller i f).hub = w.hub ∧
    (w.modifyCaller i f).links = w.links ∧
    (w.modifyCaller i f).callers = w.callers.modify i f ∧
    (w.modifyCaller i f).servers = w.servers ∧ (w.modifyCaller i f).calls = w.calls ∧
    (w.modifyCaller i f).tasks = w.tasks ∧ (w.modifyCaller i f).ready = w.ready ∧
    (w.modifyCaller i f).timers = w.timers ∧ (w.modifyCaller i f).events = w.events :=
  ⟨rfl, rfl, rfl, rfl, rfl, rfl, rfl, rfl, rfl, rfl, rfl, rfl⟩

theorem settleCell_eq (w : World) (e : EngineId) (r : Except Status Unit) :
    w.settleCell e r = w ∨
      ∃ cell ts,
        w.settleCell e r = (w.modifySeat (fun p => { p with cell := cell }) e).wakeAll ts := by
  unfold settleCell
  split
  · exact .inr ⟨_, _, rfl⟩
  · exact .inr ⟨_, [], rfl⟩
  · exact .inr ⟨_, [_], rfl⟩
  · exact .inl rfl

@[simp] theorem settleCell_keeps (w : World) (e : EngineId) (r : Except Status Unit) :
    (w.settleCell e r).now = w.now ∧ (w.settleCell e r).wall = w.wall ∧
    (w.settleCell e r).ids = w.ids ∧ (w.settleCell e r).hub = w.hub ∧
    (w.settleCell e r).links = w.links ∧ (w.settleCell e r).calls = w.calls ∧
    (w.settleCell e r).tasks = w.tasks ∧ (w.settleCell e r).timers = w.timers ∧
    (w.settleCell e r).events = w.events ∧
    (w.settleCell e r).callers.next = w.callers.next ∧
    (w.settleCell e r).servers.next = w.servers.next := by
  rcases settleCell_eq w e r with h | ⟨cell, ts, h⟩ <;> simp [h]

theorem settleCell_events (w : World) (e : EngineId) (r : Except Status Unit) :
    (w.settleCell e r).events = w.events := by simp

/-! ## Calls -/

@[simp] theorem resolve_keeps (w : World) (k : CallId) (o : Except Failure Payload) :
    (w.resolve k o).now = w.now ∧ (w.resolve k o).wall = w.wall ∧
    (w.resolve k o).ids = w.ids ∧ (w.resolve k o).hub = w.hub ∧
    (w.resolve k o).links = w.links ∧ (w.resolve k o).callers = w.callers ∧
    (w.resolve k o).servers = w.servers ∧ (w.resolve k o).tasks = w.tasks ∧
    (w.resolve k o).calls.next = w.calls.next ∧ (w.resolve k o).timers = w.timers ∧
    (w.resolve k o).events = w.events := by
  unfold resolve
  split
  · simp
  · dsimp only
    split <;> simp [Table.set, Table.erase]

theorem resolve_tasks (w : World) (k : CallId) (o : Except Failure Payload) :
    (w.resolve k o).tasks = w.tasks := by simp

theorem resolve_timers (w : World) (k : CallId) (o : Except Failure Payload) :
    (w.resolve k o).timers = w.timers := by simp

@[simp] theorem resolve_get? (w : World) (k j : CallId) (o : Except Failure Payload) :
    (w.resolve k o).calls.get? j =
      if j = k then (w.calls.get? j).map fun c => { c with outcome := some o, waiter := none }
      else w.calls.get? j := by
  unfold resolve
  split
  · rename_i hn
    split
    · rename_i hj; subst hj; rw [hn]; rfl
    · rfl
  · rename_i call hc
    have hset : ∀ (x : World),
        x.calls = w.calls.set k { call with outcome := some o, waiter := none } →
        x.calls.get? j =
          if j = k then (w.calls.get? j).map fun c => { c with outcome := some o, waiter := none }
          else w.calls.get? j := by
      intro x hx
      rw [hx, Table.get?_set]
      split
      · rename_i hj; subst hj; rw [hc]; rfl
      · rfl
    dsimp only
    split
    · exact hset _ (by simp)
    · exact hset _ rfl

/-- A call that is not pending is left alone by what ends it. -/
theorem complete_of_none {w : World} {i : CallerId} {id : MessageId}
    (h : (w.callers.get? i).bind (·.pending? id) = none) (cause : Cause) :
    w.complete i id cause = w.record (.ended i id cause) := by
  simp [complete, h]

theorem complete_of_some {w : World} {i : CallerId} {id : MessageId} {p : PendingCall}
    (h : (w.callers.get? i).bind (·.pending? id) = some p) (cause : Cause) :
    w.complete i id cause =
      (((w.record (.ended i id cause)).modifyCaller i (·.forget id)).cancel p.deadline).resolve
        p.call cause.outcome := by
  simp [complete, h]

@[simp] theorem complete_keeps (w : World) (i : CallerId) (id : MessageId) (cause : Cause) :
    (w.complete i id cause).now = w.now ∧ (w.complete i id cause).wall = w.wall ∧
    (w.complete i id cause).ids = w.ids ∧ (w.complete i id cause).hub = w.hub ∧
    (w.complete i id cause).links = w.links ∧ (w.complete i id cause).servers = w.servers ∧
    (w.complete i id cause).tasks.next = w.tasks.next ∧
    (w.complete i id cause).calls.next = w.calls.next ∧
    (w.complete i id cause).callers.next = w.callers.next ∧
    (w.complete i id cause).events = (w.now, .ended i id cause) :: w.events := by
  cases h : (w.callers.get? i).bind (·.pending? id) with
  | none => simp [complete_of_none h]
  | some p => simp [complete_of_some h, modifyCaller, Table.modify]

theorem complete_servers (w : World) (i : CallerId) (id : MessageId) (cause : Cause) :
    (w.complete i id cause).servers = w.servers := by simp

theorem complete_events (w : World) (i : CallerId) (id : MessageId) (cause : Cause) :
    (w.complete i id cause).events = (w.now, .ended i id cause) :: w.events := by simp

/-- The place of a call that ends gets its outcome, and no other place changes. -/
theorem complete_calls_get? {w : World} {i : CallerId} {id : MessageId} {p : PendingCall}
    (h : (w.callers.get? i).bind (·.pending? id) = some p) (cause : Cause) (k : CallId) :
    (w.complete i id cause).calls.get? k =
      if k = p.call then
        (w.calls.get? k).map fun c => { c with outcome := some cause.outcome, waiter := none }
      else w.calls.get? k := by
  rw [complete_of_some h, resolve_get?]
  simp

/-- The task of its deadline is cancelled, and no other task changes. -/
theorem complete_tasks_get? {w : World} {i : CallerId} {id : MessageId} {p : PendingCall}
    (h : (w.callers.get? i).bind (·.pending? id) = some p) (cause : Cause) (k : TaskId) :
    (w.complete i id cause).tasks.get? k =
      if k = p.deadline then (w.tasks.get? k).map fun task => { task with cancelled := true }
      else w.tasks.get? k := by
  rw [complete_of_some h]
  simp

/-- Whatever ends, every task that is there was there before with its job. -/
theorem complete_task {w : World} {i : CallerId} {id : MessageId} {cause : Cause} {k : TaskId}
    {x : Task} (task : (w.complete i id cause).tasks.get? k = some x) :
    ∃ y, w.tasks.get? k = some y ∧ x.job = y.job := by
  cases hp : (w.callers.get? i).bind (·.pending? id) with
  | none =>
    rw [complete_of_none hp] at task
    exact ⟨x, task, rfl⟩
  | some p =>
    rw [complete_tasks_get? hp] at task
    split at task
    · obtain ⟨y, hy, rfl⟩ := Option.map_eq_some_iff.mp task
      exact ⟨y, hy, rfl⟩
    · exact ⟨x, task, rfl⟩

theorem Fresh.resolve {w : World} (h : w.calls.Fresh) (k : CallId) (o : Except Failure Payload) :
    (w.resolve k o).calls.Fresh := by
  intro j hj
  rw [resolve_get?, h j (by simpa using hj)]
  simp

theorem Fresh.complete {w : World} (i : CallerId) (id : MessageId) (cause : Cause) :
    (w.calls.Fresh → (w.complete i id cause).calls.Fresh) ∧
    (w.tasks.Fresh → (w.complete i id cause).tasks.Fresh) ∧
    (w.callers.Fresh → (w.complete i id cause).callers.Fresh) := by
  cases h : (w.callers.get? i).bind (·.pending? id) with
  | none => simp [complete_of_none h]
  | some p =>
    rw [complete_of_some h]
    refine ⟨fun hc => Fresh.resolve (by simpa [modifyCaller] using hc) _ _, fun ht => ?_,
      fun hc => ?_⟩
    · rw [resolve_tasks]
      exact Fresh.cancel (by simpa [modifyCaller] using ht) _
    · simpa [modifyCaller] using hc.modify i _

@[simp] theorem resolveAll_keeps (w : World) (ps : List PendingCall) (o : Except Failure Payload) :
    let v := ps.foldl (fun w p => w.resolve p.call o) w
    v.now = w.now ∧ v.wall = w.wall ∧ v.ids = w.ids ∧ v.hub = w.hub ∧ v.links = w.links ∧
    v.callers = w.callers ∧ v.servers = w.servers ∧ v.tasks = w.tasks ∧
    v.calls.next = w.calls.next ∧ v.timers = w.timers ∧ v.events = w.events := by
  induction ps generalizing w with
  | nil => simp
  | cons p ps ih => simpa using ih (w.resolve p.call o)

theorem Fresh.resolveAll {w : World} (h : w.calls.Fresh) (ps : List PendingCall)
    (o : Except Failure Payload) : (ps.foldl (fun w p => w.resolve p.call o) w).calls.Fresh := by
  induction ps generalizing w with
  | nil => exact h
  | cons p ps ih => exact ih (Fresh.resolve h p.call o)

@[simp] theorem abandon_keeps (w : World) (i : CallerId) :
    (w.abandon i).now = w.now ∧ (w.abandon i).wall = w.wall ∧ (w.abandon i).ids = w.ids ∧
    (w.abandon i).hub = w.hub ∧ (w.abandon i).links = w.links ∧
    (w.abandon i).servers = w.servers ∧ (w.abandon i).tasks = w.tasks ∧
    (w.abandon i).timers = w.timers ∧ (w.abandon i).events = w.events ∧
    (w.abandon i).callers.next = w.callers.next ∧ (w.abandon i).calls.next = w.calls.next := by
  unfold abandon
  split
  · simp
  · simp [modifyCaller]

@[simp] theorem abandon_callers (w : World) (i j : CallerId) :
    (w.abandon i).callers.get? j =
      if j = i then (w.callers.get? j).map fun c => { c with pending := [] }
      else w.callers.get? j := by
  unfold abandon
  split
  · rename_i hn
    split
    · rename_i hj; subst hj; rw [hn]; rfl
    · rfl
  · simp [modifyCaller]

theorem Fresh.abandon {w : World} (h : w.calls.Fresh) (i : CallerId) :
    (w.abandon i).calls.Fresh := by
  unfold World.abandon
  split
  · exact h
  · exact Fresh.resolveAll (w := w.modifyCaller i _) h _ _

theorem abandon_idle {w : World} {i : CallerId}
    (h : ∀ c, w.callers.get? i = some c → c.pending = []) : (w.abandon i).calls = w.calls := by
  unfold abandon
  split
  · rfl
  · rename_i c hc
    rw [h c hc]
    rfl

@[simp] theorem accept_keeps (w : World) (i : CallerId) (m : Message) (id : MessageId)
    (timeout : Duration) :
    (w.accept i m id timeout).1 = ⟨id, w.calls.next⟩ ∧
    (w.accept i m id timeout).2.now = w.now ∧ (w.accept i m id timeout).2.wall = w.wall ∧
    (w.accept i m id timeout).2.ids = w.ids ∧ (w.accept i m id timeout).2.hub = w.hub ∧
    (w.accept i m id timeout).2.links = w.links ∧
    (w.accept i m id timeout).2.servers = w.servers ∧
    (w.accept i m id timeout).2.callers = w.callers.modify i (fun c =>
      { c with pending := ⟨id, w.calls.next, w.tasks.next⟩ :: c.pending }) ∧
    (w.accept i m id timeout).2.calls = (w.calls.insert { caller := i, id := id }).2 ∧
    (w.accept i m id timeout).2.tasks = ((w.tasks.insert ⟨.deadline i id timeout, false⟩).2.insert
      ⟨.prepare (.request i id m), false⟩).2 ∧
    (w.accept i m id timeout).2.timers = w.timers ∧
    (w.accept i m id timeout).2.events = (w.now, .accepted i id timeout) :: w.events :=
  ⟨rfl, rfl, rfl, rfl, rfl, rfl, rfl, rfl, rfl, rfl, rfl, rfl⟩

theorem accept_events (w : World) (i : CallerId) (m : Message) (id : MessageId)
    (timeout : Duration) :
    (w.accept i m id timeout).2.events = (w.now, .accepted i id timeout) :: w.events := rfl

/-- A call is refused before an id is taken, or after, or it is accepted. -/
theorem invoke_cases (w : World) (i : CallerId) (method : Address) (payload : Option Payload)
    (options : CallOptions) :
    (∃ e, w.invoke i method payload options = (.error e, w)) ∨
    (∃ e, w.invoke i method payload options = (.error e, w.mint.2)) ∨
    ∃ c m, w.callers.get? i = some c ∧ c.seat.closed = false ∧
      (c.draft method options w.mint.1).finish w.mint.1 payload = .ok m ∧
      c.pending? w.mint.1 = none ∧
      w.invoke i method payload options =
        (.ok ⟨w.mint.1, w.calls.next⟩, (w.mint.2.accept i m w.mint.1 options.timeout).2) := by
  unfold invoke
  cases hc : w.callers.get? i with
  | none => exact .inl ⟨_, rfl⟩
  | some c =>
    dsimp only
    by_cases hd : c.seat.closed = true
    · rw [if_pos hd]
      exact .inl ⟨_, rfl⟩
    · rw [if_neg hd]
      refine .inr ?_
      cases hf : (c.draft method options w.mint.1).finish w.mint.1 payload with
      | error e => exact .inl ⟨e, rfl⟩
      | ok m =>
        dsimp only
        by_cases hp : (c.pending? w.mint.1).isSome = true
        · rw [if_pos hp]
          exact .inl ⟨_, rfl⟩
        · rw [if_neg hp]
          exact .inr ⟨c, m, rfl, by simpa using hd, hf, by simpa using hp, rfl⟩

theorem invoke_keeps (w : World) (i : CallerId) (method : Address) (payload : Option Payload)
    (options : CallOptions) :
    (w.invoke i method payload options).2.wall = w.wall ∧
    (w.invoke i method payload options).2.hub = w.hub ∧
    (w.invoke i method payload options).2.links = w.links ∧
    (w.invoke i method payload options).2.servers = w.servers := by
  rcases invoke_cases w i method payload options with
    ⟨e, he⟩ | ⟨e, he⟩ | ⟨c, m, _, _, _, _, he⟩ <;> simp [he]

theorem invoke_hub (w : World) (i : CallerId) (method : Address) (payload : Option Payload)
    (options : CallOptions) : (w.invoke i method payload options).2.hub = w.hub := by
  simp [invoke_keeps]

theorem invoke_links (w : World) (i : CallerId) (method : Address) (payload : Option Payload)
    (options : CallOptions) : (w.invoke i method payload options).2.links = w.links := by
  simp [invoke_keeps]

theorem invoke_servers (w : World) (i : CallerId) (method : Address) (payload : Option Payload)
    (options : CallOptions) : (w.invoke i method payload options).2.servers = w.servers := by
  simp [invoke_keeps]

/-- A call takes an id if its caller is there and not closed. -/
theorem invoke_ids (w : World) (i : CallerId) (method : Address) (payload : Option Payload)
    (options : CallOptions) : (w.invoke i method payload options).2.ids =
      if (w.callers.get? i).any (!·.seat.closed) then w.mint.2.ids else w.ids := by
  unfold invoke
  cases w.callers.get? i with
  | none => rfl
  | some c =>
    dsimp only
    by_cases closed : c.seat.closed = true
    · simp [closed]
    · have opened : c.seat.closed = false := by simpa using closed
      simp only [opened, Bool.false_eq_true, if_false, Option.any_some, Bool.not_false, if_true]
      split
      · rfl
      · split
        · rfl
        · simp

/-! ## Engines that go away -/

@[simp] theorem remove_keeps (w : World) (e : EngineId) (p : Seat) (side : Side) :
    (w.remove e p side).now = w.now ∧ (w.remove e p side).wall = w.wall ∧
    (w.remove e p side).ids = w.ids ∧ (w.remove e p side).hub = w.hub ∧
    (w.remove e p side).links = w.links ∧
    (w.remove e p side).timers = w.timers ∧ (w.remove e p side).events = w.events ∧
    (w.remove e p side).callers.next = w.callers.next ∧
    (w.remove e p side).servers.next = w.servers.next ∧
    (w.remove e p side).calls.next = w.calls.next ∧
    (w.remove e p side).tasks =
      if !p.closed && p.cell == .registered && side == .inside then
        (w.tasks.insert ⟨.withdraw p.link p.sink e, false⟩).2
      else w.tasks := by
  unfold remove
  cases e <;> dsimp only <;> split <;> simp

/-- All it starts is the task that withdraws the listener, if there is one. -/
theorem remove_tasks (w : World) (e : EngineId) (p : Seat) (side : Side) :
    (p.closed = false ∧ p.cell = .registered ∧ side = .inside ∧
      (w.remove e p side).tasks = (w.tasks.insert ⟨.withdraw p.link p.sink e, false⟩).2) ∨
    (w.remove e p side).tasks = w.tasks := by
  by_cases withdraws : (!p.closed && p.cell == .registered && side == .inside) = true
  · have opened : (p.closed = false ∧ p.cell = .registered) ∧ side = .inside := by
      simpa using withdraws
    exact .inl ⟨opened.1.1, opened.1.2, opened.2, by simp [withdraws]⟩
  · exact .inr (by simp [withdraws])

@[simp] theorem remove_callers (w : World) (e : EngineId) (p : Seat) (side : Side)
    (i : CallerId) :
    (w.remove e p side).callers.get? i =
      if e = .caller i then (w.callers.get? i).map fun c =>
        { c with seat := { c.seat with gone := true }, pending := [] }
      else w.callers.get? i := by
  unfold remove
  cases e with
  | caller j =>
    have hc : ((w.modifySeat (fun p => { p with gone := true }) (.caller j)).abandon j).callers.get?
        i = if EngineId.caller j = .caller i then (w.callers.get? i).map fun c =>
          { c with seat := { c.seat with gone := true }, pending := [] }
        else w.callers.get? i := by
      rw [abandon_callers, modifySeat_callers]
      by_cases h : i = j
      · subst h; simp [Function.comp_def]
      · simp [h, Ne.symm h]
    dsimp only
    split <;> simpa using hc
  | server s => dsimp only; split <;> simp

@[simp] theorem remove_servers (w : World) (e : EngineId) (p : Seat) (side : Side)
    (s : ServerId) :
    (w.remove e p side).servers.get? s =
      if e = .server s then (w.servers.get? s).map fun v =>
        { v with seat := { v.seat with gone := true } }
      else w.servers.get? s := by
  unfold remove
  cases e <;> dsimp only <;> split <;> simp

theorem Fresh.remove {w : World} (h : w.calls.Fresh) (e : EngineId) (p : Seat) (side : Side) :
    (w.remove e p side).calls.Fresh := by
  have hm : (w.modifySeat (fun p => { p with gone := true }) e).calls.Fresh := by simpa using h
  unfold World.remove
  cases e with
  | caller i => dsimp only; split <;> exact Fresh.abandon hm i
  | server s => dsimp only; split <;> exact hm

theorem remove_idle {w : World} {e : EngineId} (p : Seat) (side : Side)
    (h : ∀ i c, e = .caller i → w.callers.get? i = some c → c.pending = []) :
    (w.remove e p side).calls = w.calls := by
  unfold remove
  cases e with
  | caller i =>
    have hm : ∀ f c, (w.modifySeat f (.caller i)).callers.get? i = some c → c.pending = [] := by
      intro f c hc
      simp only [modifySeat_callers, if_true, Option.map_eq_some_iff] at hc
      obtain ⟨c', hc', rfl⟩ := hc
      exact h i c' rfl hc'
    dsimp only
    split <;> simp [abandon_idle (hm _)]
  | server s => dsimp only; split <;> simp

theorem seat?_congr {w v : World}
    (callers : ∀ i, (v.callers.get? i).map (·.seat) = (w.callers.get? i).map (·.seat))
    (servers : ∀ s, (v.servers.get? s).map (·.seat) = (w.servers.get? s).map (·.seat))
    (e : EngineId) : v.seat? e = w.seat? e := by
  cases e with
  | caller i => exact callers i
  | server s => exact servers s

@[simp] theorem recordAll_seat? (w : World) (es : List Event) (e : EngineId) :
    (w.recordAll es).seat? e = w.seat? e :=
  seat?_congr (fun _ => by simp) (fun _ => by simp) e

@[simp] theorem wake_seat? (w : World) (t : TaskId) (e : EngineId) :
    (w.wake t).seat? e = w.seat? e :=
  seat?_congr (fun _ => by simp) (fun _ => by simp) e

@[simp] theorem wakeAll_seat? (w : World) (ts : List TaskId) (e : EngineId) :
    (w.wakeAll ts).seat? e = w.seat? e :=
  seat?_congr (fun _ => by simp) (fun _ => by simp) e

@[simp] theorem record_seat? (w : World) (ev : Event) (e : EngineId) :
    (w.record ev).seat? e = w.seat? e :=
  seat?_congr (fun _ => rfl) (fun _ => rfl) e

@[simp] theorem park_seat? (w : World) (t : TaskId) (j : Job) (e : EngineId) :
    (w.park t j).seat? e = w.seat? e :=
  seat?_congr (fun _ => rfl) (fun _ => rfl) e

@[simp] theorem complete_seat? (w : World) (i : CallerId) (id : MessageId) (cause : Cause)
    (e : EngineId) : (w.complete i id cause).seat? e = w.seat? e := by
  refine seat?_congr (fun j => ?_) (fun s => by simp) e
  cases h : (w.callers.get? i).bind (·.pending? id) with
  | none => simp [complete_of_none h]
  | some p =>
    rw [complete_of_some h]
    simp only [resolve_keeps, cancel_keeps, modifyCaller_keeps, record_keeps, Table.get?_modify]
    split
    · cases w.callers.get? j <;> rfl
    · rfl

@[simp] theorem accept_seat? (w : World) (i : CallerId) (m : Message) (id : MessageId)
    (timeout : Duration) (e : EngineId) : (w.accept i m id timeout).2.seat? e = w.seat? e := by
  refine seat?_congr (fun j => ?_) (fun s => by simp) e
  simp only [accept_keeps, Table.get?_modify]
  split
  · cases w.callers.get? j <;> rfl
  · rfl

theorem invoke_seat? (w : World) (i : CallerId) (method : Address) (payload : Option Payload)
    (options : CallOptions) (e : EngineId) :
    (w.invoke i method payload options).2.seat? e = w.seat? e := by
  rcases invoke_cases w i method payload options with
    ⟨_, he⟩ | ⟨_, he⟩ | ⟨c, m, _, _, _, _, he⟩ <;> rw [he]
  · rfl
  · exact accept_seat? ..

theorem modifyServer_seat? (w : World) (s : ServerId) {f : Server → Server}
    (hf : ∀ v, w.servers.get? s = some v → (f v).seat = v.seat) (e : EngineId) :
    (w.modifyServer s f).seat? e = w.seat? e := by
  refine seat?_congr (fun i => by simp) (fun s' => ?_) e
  simp only [modifyServer_keeps, Table.get?_modify]
  split
  · rename_i hs
    subst hs
    cases hv : w.servers.get? s' with
    | none => rfl
    | some v => simp [hf v hv]
  · rfl

theorem removeSame_seat (v : Server) (method : Address) (h : Handler) :
    (v.removeSame method h).seat = v.seat := by
  unfold Server.removeSame
  split <;> rfl

theorem unserve_seat {v v' : Server} {method : Address} {h : Handler}
    (hu : v.unserve method h = .ok v') : v'.seat = v.seat := by
  unfold Server.unserve at hu
  split at hu
  · cases hu
  · split at hu
    · cases hu
      rfl
    · cases hu

@[simp] theorem remove_seat? (w : World) (e : EngineId) (p : Seat) (side : Side) (e' : EngineId) :
    (w.remove e p side).seat? e' =
      if e = e' then (w.seat? e').map fun p => { p with gone := true } else w.seat? e' := by
  cases e' with
  | caller i => simp only [seat?, remove_callers]; split <;> simp [Function.comp_def]
  | server s => simp only [seat?, remove_servers]; split <;> simp [Function.comp_def]

theorem settleCell_seat? (w : World) (e : EngineId) (r : Except Status Unit) {e' : EngineId}
    {p : Seat} (h : w.seat? e' = some p) :
    ∃ cell, (w.settleCell e r).seat? e' = some { p with cell := cell } := by
  have same : w.seat? e' = some { p with cell := p.cell } := h
  rcases settleCell_eq w e r with he | ⟨cell, ts, he⟩
  · exact ⟨p.cell, by rw [he, same]⟩
  · rw [he, wakeAll_seat?, modifySeat_seat?, h]
    split
    · exact ⟨cell, rfl⟩
    · exact ⟨p.cell, rfl⟩

/-- A message that is passed on leaves every task there was. -/
theorem broadcast_spawns (w : World) (m : Message) (ls : List Listener) (fresh : w.tasks.Fresh) :
    let v := ls.foldl (fun w l => (w.spawn (.deliver l m)).2) w
    v.tasks.Fresh ∧ w.tasks.next ≤ v.tasks.next ∧
      ∀ k, k < w.tasks.next → v.tasks.get? k = w.tasks.get? k := by
  induction ls generalizing w with
  | nil => exact ⟨fresh, Nat.le_refl _, fun _ _ => rfl⟩
  | cons l ls ih =>
    obtain ⟨fresh', next, old⟩ := ih (w.spawn (.deliver l m)).2 (fresh.insert _)
    refine ⟨fresh', Nat.le_of_succ_le next, fun k hk => ?_⟩
    rw [List.foldl_cons, old k (Nat.lt_succ_of_lt hk)]
    simp [Nat.ne_of_lt hk]

/-- It starts one delivery for each recipient, under keys in the order of the registrations. -/
theorem broadcast_get? {w : World} (fresh : w.tasks.Fresh) (m : Message) (ls : List Listener)
    (n : Nat) :
    (ls.foldl (fun w l => (w.spawn (.deliver l m)).2) w).tasks.get? (w.tasks.next + n) =
      ls[n]?.map fun l => ⟨.deliver l m, false⟩ := by
  induction ls generalizing w n with
  | nil => exact fresh _ (Nat.le_add_right ..)
  | cons l ls ih =>
    have next : (w.spawn (.deliver l m)).2.tasks.Fresh := fresh.insert _
    cases n with
    | zero =>
      obtain ⟨-, -, old⟩ := broadcast_spawns (w.spawn (.deliver l m)).2 m ls next
      exact (old w.tasks.next (Nat.lt_succ_self _)).trans (by simp)
    | succ n =>
      have later := ih next n
      rwa [List.getElem?_cons_succ, List.foldl_cons, ← Nat.add_assoc, Nat.add_right_comm]

/-- Once the hub has been given a message, a task was there before or delivers it to a recipient. -/
theorem broadcast_task {w : World} (fresh : w.tasks.Fresh) {m : Message} {k : TaskId} {x : Task}
    (task : (w.broadcast m).tasks.get? k = some x) : w.tasks.get? k = some x ∨
      ∃ n listener, k = w.tasks.next + n ∧ (w.hub.recipients m)[n]? = some listener ∧
        x = ⟨.deliver listener m, false⟩ := by
  rcases Nat.lt_or_ge k w.tasks.next with hlt | hge
  · obtain ⟨-, -, old⟩ := broadcast_spawns w m (w.hub.recipients m) fresh
    exact .inl ((old k hlt).symm.trans task)
  · obtain ⟨n, rfl⟩ := Nat.exists_eq_add_of_le hge
    rw [broadcast, broadcast_get? fresh] at task
    obtain ⟨listener, recipient, rfl⟩ := Option.map_eq_some_iff.mp task
    exact .inr ⟨n, listener, rfl, recipient, rfl⟩

@[simp] theorem broadcast_keeps (w : World) (m : Message) :
    (w.broadcast m).now = w.now ∧ (w.broadcast m).wall = w.wall ∧ (w.broadcast m).ids = w.ids ∧
    (w.broadcast m).hub = w.hub ∧ (w.broadcast m).links = w.links ∧
    (w.broadcast m).callers = w.callers ∧ (w.broadcast m).servers = w.servers ∧
    (w.broadcast m).calls = w.calls ∧ (w.broadcast m).timers = w.timers ∧
    (w.broadcast m).events = w.events := by
  unfold broadcast
  generalize w.hub.recipients m = ls
  induction ls generalizing w with
  | nil => simp
  | cons l ls ih => simpa using ih (w.spawn (.deliver l m)).2

theorem broadcast_callers (w : World) (m : Message) : (w.broadcast m).callers = w.callers := by
  simp

theorem broadcast_events (w : World) (m : Message) : (w.broadcast m).events = w.events := by simp

end World

end Switchboard
