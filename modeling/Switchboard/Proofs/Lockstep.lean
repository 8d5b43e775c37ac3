import Switchboard.Proofs.Likeness
import Switchboard.Proofs.Pending

/-! # Runs in lockstep

Every operation of the library makes alike worlds alike again: it decides by what they have in
common, and puts alike messages in the place of alike messages. There is one lemma for each
operation, in the order in which they are built on each other; an act is one of them (`Alike.act`),
and a run follows by induction (`Alike.after`). Only where an answer ends a call is more needed than
likeness: the call must be the one that the answer is for, which the docket of pending calls says.
-/

namespace Switchboard

namespace World

namespace Alike

variable {L : Likeness} {w v : World}

theorem new (h : w.IsNew) : Alike L w w := by
  obtain ⟨wall, ids, rfl⟩ := h
  exact ⟨rfl, rfl, rfl, rfl, rfl, rfl, rfl, rfl, rfl, .empty, .empty, .nil,
    fun s u server => by cases server⟩

theorem record (h : Alike L w v) {e e' : Event} (like : e.Alike L e') :
    Alike L (w.record e) (v.record e') :=
  { h with events := .cons ⟨h.now, like⟩ h.events }

theorem mint_id (h : Alike L w v) : v.mint.1 = w.mint.1 := congrArg (·.next.1) h.ids

theorem mint (h : Alike L w v) : Alike L w.mint.2 v.mint.2 :=
  { h with ids := congrArg (·.next.2) h.ids }

theorem wake (h : Alike L w v) (t : TaskId) : Alike L (w.wake t) (v.wake t) := by
  unfold World.wake
  rw [h.ready]
  split
  · exact h
  · exact { h with ready := rfl }

theorem wakeAll (h : Alike L w v) (ts : List TaskId) : Alike L (w.wakeAll ts) (v.wakeAll ts) := by
  induction ts generalizing w v with
  | nil => exact h
  | cons t ts ih => exact ih (h.wake t)

theorem spawn (h : Alike L w v) {j j' : Job} (like : j.Alike L j') :
    Alike L (w.spawn j).2 (v.spawn j').2 :=
  { h with
    tasks := h.tasks.insert ⟨like, rfl⟩
    ready := by simp [World.spawn, h.ready, h.tasks.next] }

theorem park (h : Alike L w v) (t : TaskId) {j j' : Job} (like : j.Alike L j') :
    Alike L (w.park t j) (v.park t j') :=
  { h with tasks := h.tasks.set t ⟨like, rfl⟩ }

theorem sleep (h : Alike L w v) (t : TaskId) (ms : Nat) {j j' : Job} (like : j.Alike L j') :
    Alike L (w.sleep t ms j) (v.sleep t ms j') :=
  { h.park t like with timers := by simp [World.sleep, World.park, h.timers, h.now] }

theorem without (h : Alike L w v) (t : TaskId) : Alike L (w.without t) (v.without t) :=
  { h with tasks := h.tasks.erase t, ready := congrArg (·.erase t) h.ready }

theorem cancel (h : Alike L w v) (t : TaskId) : Alike L (w.cancel t) (v.cancel t) := by
  unfold World.cancel
  rcases h.tasks.get? t with ⟨hw, hv⟩ | ⟨x, y, hw, hv, like⟩
  · simpa only [hw, hv] using h
  · simp only [hw, hv]
    refine wake ?_ t
    exact { h with
      tasks := h.tasks.set t ⟨like.job, rfl⟩
      timers := congrArg (List.filter (·.task != t)) h.timers }

theorem isHeld (h : Alike L w v) (e : EngineId) : v.isHeld e = w.isHeld e :=
  h.tasks.any fun x y like => by rw [like.job.holds]

theorem seat? (h : Alike L w v) (e : EngineId) : v.seat? e = w.seat? e := by
  cases e <;> simp [World.seat?, h.callers, h.servers]

theorem cell? (h : Alike L w v) (e : EngineId) : v.cell? e = w.cell? e := by
  rw [World.cell?, World.cell?, h.seat?]

theorem isOwned (h : Alike L w v) (e : EngineId) : v.isOwned e = w.isOwned e := by
  rw [World.isOwned, World.isOwned, h.seat?]

theorem withHub (h : Alike L w v) (hub : Hub) :
    Alike L { w with hub := hub } { v with hub := hub } :=
  { h with hub := rfl }

theorem modifyCaller (h : Alike L w v) (i : CallerId) (f : Caller → Caller) :
    Alike L (w.modifyCaller i f) (v.modifyCaller i f) :=
  { h with callers := congrArg (·.modify i f) h.callers }

/-- A server may change as long as its handlers are of the kind in question. -/
theorem modifyServer (h : Alike L w v) (s : ServerId) {f : Server → Server}
    (kind : ∀ u, w.servers.get? s = some u → ∀ x ∈ (f u).handlers, L.handler x.2) :
    Alike L (w.modifyServer s f) (v.modifyServer s f) := by
  refine { h with servers := congrArg (·.modify s f) h.servers, handlers := fun s' u server => ?_ }
  simp only [World.modifyServer, Table.get?_modify] at server
  split at server
  · rename_i own
    obtain ⟨u', server', rfl⟩ := Option.map_eq_some_iff.mp server
    exact kind u' (own ▸ server')
  · exact h.handlers s' u server

theorem modifySeat (h : Alike L w v) (f : Seat → Seat) (e : EngineId) :
    Alike L (w.modifySeat f e) (v.modifySeat f e) := by
  cases e with
  | caller i => exact h.modifyCaller i fun c => { c with seat := f c.seat }
  | server s => exact h.modifyServer s (f := fun v => { v with seat := f v.seat }) (h.handlers s)

/-! ## Calls -/

theorem resolve (h : Alike L w v) (k : CallId) {o o' : Except Failure Payload}
    (like : ∀ call, w.calls.get? k = some call → L.outcome call.id o o') :
    Alike L (w.resolve k o) (v.resolve k o') := by
  unfold World.resolve
  rcases h.calls.get? k with ⟨hw, hv⟩ | ⟨call, call', hw, hv, same⟩
  · simpa only [hw, hv] using h
  · simp only [hw, hv, same.waiter]
    have set : Alike L
        { w with calls := w.calls.set k { call with outcome := some o, waiter := none } }
        { v with calls := v.calls.set k { call' with outcome := some o', waiter := none } } :=
      { h with calls := h.calls.set k ⟨same.caller, same.id, .some (like call hw), rfl⟩ }
    cases call.waiter with
    | none => exact set
    | some t => exact set.wake t

/-- What ends a call may differ if the outcomes are alike that it brings. -/
theorem complete (h : Alike L w v) (i : CallerId) (id : MessageId) {c c' : Cause}
    (like : c.Alike L c')
    (paired : ∀ x p call, w.callers.get? i = some x → x.pending? id = some p →
      w.calls.get? p.call = some call → L.outcome call.id c.outcome c'.outcome) :
    Alike L (w.complete i id c) (v.complete i id c') := by
  replace h := h.record (.ended i id like)
  unfold World.complete
  dsimp only
  rw [h.callers]
  cases caller : (w.record (.ended i id c)).callers.get? i with
  | none => exact h
  | some x =>
    cases pending : x.pending? id with
    | none => simpa only [pending, Option.bind_some] using h
    | some p =>
      simp only [pending, Option.bind_some]
      refine ((h.modifyCaller i (·.forget id)).cancel p.deadline).resolve p.call fun call hc => ?_
      exact paired x p call caller pending (by simpa using hc)

theorem complete_same (h : Alike L w v) (i : CallerId) (id : MessageId) (c : Cause) :
    Alike L (w.complete i id c) (v.complete i id c) :=
  h.complete i id (.refl c) fun _ _ _ _ _ _ => L.outcome_refl _ _

theorem await (h : Alike L w v) (t : TaskId) (k : CallId) (held : Option CallerId) :
    Alike L (w.await t k held) (v.await t k held) := by
  unfold World.await
  rcases h.calls.get? k with ⟨hw, hv⟩ | ⟨call, call', hw, hv, same⟩
  · simpa only [hw, hv] using h
  · obtain ⟨caller, id, outcome, waiter⟩ := call
    obtain ⟨caller', id', outcome', waiter'⟩ := call'
    obtain ⟨rfl, rfl, known, rfl⟩ := same
    simp only [hw, hv]
    -- the outcome is there in both worlds or in neither
    cases known with
    | none =>
      refine park ?_ t (.await k held)
      exact { h with calls := h.calls.set k ⟨rfl, rfl, .none, rfl⟩ }
    | some like => exact h.record (.resolved t _ like)

theorem reportUnexpected (h : Alike L w v) (i : CallerId) (c : Caller) {m m' : Message}
    (like : L.message m m') :
    Alike L (w.reportUnexpected i c m) (v.reportUnexpected i c m') := by
  unfold World.reportUnexpected
  split
  · exact h.record (.unexpected i like)
  · exact h

end Alike

/-- The pending calls of the callers are those that they stand for. -/
def Paired (w : World) : Prop :=
  ∀ i c id p call, w.callers.get? i = some c → c.pending? id = some p →
    w.calls.get? p.call = some call → call.id = id

theorem Docket.paired {w : World} (h : w.Docket) : w.Paired := by
  intro i c id p call caller pending place
  have mem : p ∈ w.pendingOf i := by
    rw [pendingOf, caller]
    exact List.mem_of_find?_eq_some pending
  have own : p.id = id := by simpa using List.find?_some pending
  have account := (World.account_of_place place).symm.trans (h.places i p mem)
  simp only [Option.some.injEq, Prod.mk.injEq] at account
  exact account.2.1.trans own

namespace Alike

variable {L : Likeness} {w v : World}

theorem receive (h : Alike L w v) (paired : w.Paired) (i : CallerId) (c : Caller) {m m' : Message}
    (like : L.message m m') : Alike L (w.receive i c m) (v.receive i c m') := by
  unfold World.receive
  rw [← Message.answers?_congr (L.frame like)]
  cases answers : m.answers? with
  | none => exact h.reportUnexpected i c like
  | some id =>
    have done : Alike L (w.complete i id (.answered m)) (v.complete i id (.answered m')) :=
      h.complete i id (.answered like) fun x p call caller pending place => by
        rw [paired i x id p call caller pending place]
        exact L.answers like answers
    dsimp only
    split
    · exact done
    · exact done.reportUnexpected i c like

theorem accept (h : Alike L w v) (i : CallerId) {m m' : Message} (like : L.message m m')
    (id : MessageId) (timeout : Duration) :
    (v.accept i m' id timeout).1 = (w.accept i m id timeout).1 ∧
      Alike L (w.accept i m id timeout).2 (v.accept i m' id timeout).2 := by
  have placed : Alike L { w with calls := (w.calls.insert { caller := i, id := id }).2 }
      { v with calls := (v.calls.insert { caller := i, id := id }).2 } :=
    { h with calls := h.calls.insert ⟨rfl, rfl, .none, rfl⟩ }
  refine ⟨congrArg (Accepted.mk id) h.calls.next, ?_⟩
  -- the call and its deadline have the same keys in both worlds
  have deadline : v.tasks.next = w.tasks.next := h.tasks.next
  have call : v.calls.next = w.calls.next := h.calls.next
  have noted := (placed.spawn (.deadline i id timeout)).modifyCaller i fun c =>
    { c with pending := ⟨id, w.calls.next, w.tasks.next⟩ :: c.pending }
  have prepared := (noted.spawn (.prepare (.request i id like))).record (.accepted i id timeout)
  simpa [World.accept, World.spawn, Table.insert, deadline, call] using prepared

/-- Calls that ask for what is alike are refused together, for one reason, or both accepted. -/
theorem invoke (h : Alike L w v) (i : CallerId) (method : Address)
    {payload payload' : Option Payload} {options options' : CallOptions}
    (like : L.Asks method payload payload' options options') :
    (v.invoke i method payload' options').1 = (w.invoke i method payload options).1 ∧
      Alike L (w.invoke i method payload options).2 (v.invoke i method payload' options').2 := by
  unfold World.invoke
  rw [h.callers]
  cases caller : w.callers.get? i with
  | none => exact ⟨rfl, h⟩
  | some c =>
    dsimp only
    split
    · exact ⟨rfl, h⟩
    · rw [h.mint_id]
      rcases (like.request c w.mint.1).either with ⟨m, m', hm, hm', same⟩ | ⟨e, hm, hm'⟩
      · simp only [hm, hm']
        split
        · exact ⟨rfl, h.mint⟩
        · obtain ⟨accepted, next⟩ := h.mint.accept i same w.mint.1 options.timeout
          rw [like.timeout]
          exact ⟨congrArg Except.ok accepted, next⟩
      · simpa only [hm, hm', true_and] using h.mint

theorem call (h : Alike L w v) (t : TaskId) (i : CallerId) (method : Address)
    {payload payload' : Option Payload} {options options' : CallOptions}
    (like : L.Asks method payload payload' options options') :
    Alike L (w.call t i method (.ok payload) options)
      (v.call t i method (.ok payload') options') := by
  obtain ⟨result, next⟩ := h.invoke i method like
  unfold World.call
  rcases hw : w.invoke i method payload options with ⟨x, w'⟩
  rcases hv : v.invoke i method payload' options' with ⟨y, v'⟩
  simp only [hw, hv] at result next
  subst result
  cases y with
  | error e => simpa only [hw, hv] using next.record (.refused t e)
  | ok accepted => simpa only [hw, hv] using next.await t accepted.call (some i)

theorem broadcast (h : Alike L w v) {m m' : Message} (like : L.message m m') :
    Alike L (w.broadcast m) (v.broadcast m') := by
  unfold World.broadcast
  rw [h.hub, ← w.hub.recipients_congr (L.frame like)]
  generalize w.hub.recipients m = ls
  induction ls generalizing w v with
  | nil => exact h
  | cons l ls ih => exact ih (h.spawn (.deliver l like))

theorem afterSend (h : Alike L w v) (t : TaskId) (after : AfterSend) (r : Except Status Unit) :
    Alike L (w.afterSend t after r) (v.afterSend t after r) := by
  rcases after with ⟨i, id⟩ | s | report <;> rcases r with s | _
  · exact h.complete_same i id (.refused s)
  · exact h
  · exact h
  · exact h
  · exact h.record (.finished t _)
  · exact h.record (.finished t _)

theorem refusal? (h : Alike L w v) (l : LinkId) (a : Action) :
    v.refusal? l a = w.refusal? l a := by
  rw [World.refusal?, World.refusal?, h.links]

theorem delay (h : Alike L w v) (l : LinkId) (a : Action) : v.delay l a = w.delay l a := by
  rw [World.delay, World.delay, h.links]

theorem sendNow (h : Alike L w v) (t : TaskId) (l : LinkId) {m m' : Message}
    (like : L.message m m') (after : AfterSend) :
    Alike L (w.sendNow t l m after) (v.sendNow t l m' after) := by
  unfold World.sendNow
  rw [h.refusal?]
  split
  · exact h.afterSend t after _
  · exact (h.broadcast like).afterSend t after _

theorem send (h : Alike L w v) (t : TaskId) (l : LinkId) {m m' : Message}
    (like : L.message m m') (after : AfterSend) :
    Alike L (w.send t l m after) (v.send t l m' after) := by
  replace h := h.record (.sent l like)
  unfold World.send
  dsimp only
  rw [h.delay]
  split
  · exact h.sendNow t l like after
  · exact h.sleep t _ (.send l after like)

theorem useListener (h : Alike L w v) (t : TaskId) {u u' : Use} (like : u.Alike L u')
    (r : Except Status Unit) : Alike L (w.useListener t u r) (v.useListener t u' r) := by
  cases like with
  | request i id like =>
    cases r with
    | error s => exact h.complete_same i id (.refused s)
    | ok _ =>
      simp only [World.useListener, h.callers]
      split
      · exact h
      · exact h.send t _ like _
  | serve s method x kind =>
    cases r with
    | error st =>
      refine (h.modifyServer s fun u server y hy => h.handlers s u server y ?_).record
        (.finished t _)
      simp only [Server.removeSame] at hy
      split at hy
      · exact List.mem_of_mem_filter hy
      · exact hy
    | ok _ => exact h.record (.finished t _)

theorem settleCell (h : Alike L w v) (e : EngineId) (r : Except Status Unit) :
    Alike L (w.settleCell e r) (v.settleCell e r) := by
  unfold World.settleCell
  rw [h.cell?]
  split
  · exact (h.modifySeat _ e).wakeAll _
  · exact h.modifySeat _ e
  · exact (h.modifySeat _ e).wake _
  · exact h

theorem afterRegister (h : Alike L w v) (t : TaskId) {after after' : AfterRegister}
    (like : after.Alike L after') (r : Except Status Unit) :
    Alike L (w.afterRegister t after r) (v.afterRegister t after' r) := by
  cases like with
  | use like =>
    simp only [World.afterRegister, like.engine]
    exact ((h.record (.attempted _ r)).settleCell _ r).useListener t like r
  | report report => exact h.record (.finished t _)

theorem registerNow (h : Alike L w v) (t : TaskId) (l : LinkId) (source : Address)
    (sink : Option Address) (listener : Listener) {after after' : AfterRegister}
    (like : after.Alike L after') :
    Alike L (w.registerNow t l source sink listener after)
      (v.registerNow t l source sink listener after') := by
  unfold World.registerNow
  rw [h.refusal?, h.hub]
  split
  · exact h.afterRegister t like _
  · split
    · exact h.afterRegister t like _
    · exact (h.withHub _).afterRegister t like _

theorem register (h : Alike L w v) (t : TaskId) (l : LinkId) (source : Address)
    (sink : Option Address) (listener : Listener) {after after' : AfterRegister}
    (like : after.Alike L after') :
    Alike L (w.register t l source sink listener after)
      (v.register t l source sink listener after') := by
  unfold World.register
  rw [h.delay]
  split
  · exact h.registerNow t l source sink listener like
  · exact h.sleep t _ (.register l source sink listener like)

theorem attempt (h : Alike L w v) (t : TaskId) {u u' : Use} (like : u.Alike L u') :
    Alike L (w.attempt t u) (v.attempt t u') := by
  unfold World.attempt
  rw [like.engine, h.seat?]
  split
  · exact h
  · exact h.register t _ _ _ _ (.use like)

theorem prepare (h : Alike L w v) (t : TaskId) {u u' : Use} (like : u.Alike L u') :
    Alike L (w.prepare t u) (v.prepare t u') := by
  unfold World.prepare
  rw [like.engine, h.cell?]
  split
  · exact h
  · exact h.useListener t like _
  · exact (h.modifySeat _ _).attempt t like
  · exact (h.modifySeat _ _).park t (.resume like)

theorem resume (h : Alike L w v) (t : TaskId) {u u' : Use} (like : u.Alike L u') :
    Alike L (w.resume t u) (v.resume t u') := by
  unfold World.resume
  rw [like.engine, h.cell?]
  split
  · exact h.useListener t like _
  · exact h.attempt t like

theorem afterUnregister (h : Alike L w v) (t : TaskId) (after : AfterUnregister)
    (r : Except Status Unit) :
    Alike L (w.afterUnregister t after r) (v.afterUnregister t after r) := by
  cases after with
  | nothing => exact h
  | report report => exact h.record (.finished t _)

theorem unregisterNow (h : Alike L w v) (t : TaskId) (l : LinkId) (source : Address)
    (sink : Option Address) (listener : Listener) (after : AfterUnregister) :
    Alike L (w.unregisterNow t l source sink listener after)
      (v.unregisterNow t l source sink listener after) := by
  unfold World.unregisterNow
  rw [h.refusal?, h.hub]
  split
  · exact h.afterUnregister t after _
  · split
    · exact h.afterUnregister t after _
    · exact (h.withHub _).afterUnregister t after _

theorem unregister (h : Alike L w v) (t : TaskId) (l : LinkId) (source : Address)
    (sink : Option Address) (listener : Listener) (after : AfterUnregister) :
    Alike L (w.unregister t l source sink listener after)
      (v.unregister t l source sink listener after) := by
  unfold World.unregister
  rw [h.delay]
  split
  · exact h.unregisterNow t l source sink listener after
  · exact h.sleep t _ (.unregister l source sink listener after)

/-! ## Operations -/

theorem serve (h : Alike L w v) (t : TaskId) (s : ServerId) (method : Address) {x : Handler}
    (kind : L.handler x) : Alike L (w.serve t s method x) (v.serve t s method x) := by
  unfold World.serve
  rw [h.servers]
  split
  · exact h
  · split
    · exact h.record (.finished t _)
    · refine (h.modifyServer s fun u server y hy => ?_).prepare t (.serve s method x kind)
      rcases List.mem_cons.mp hy with rfl | hy
      · exact kind
      · exact h.handlers s u server y hy

theorem close (h : Alike L w v) (t : TaskId) (e : EngineId) :
    Alike L (w.close t e) (v.close t e) := by
  unfold World.close
  rw [h.seat?]
  split
  · exact h
  · split
    · exact h.record (.finished t _)
    · dsimp only
      split
      · exact (h.modifySeat _ e).unregister t _ _ _ _ _
      · exact (h.modifySeat _ e).record (.finished t _)

theorem post (h : Alike L w v) (t : TaskId) (l : LinkId) (resource : UInt16)
    (draft : Address → Draft) {payload payload' : Option Payload} {options options' : SendOptions}
    (like : L.Posts draft payload payload' options options') :
    Alike L (w.post t l resource draft payload options)
      (v.post t l resource draft payload' options') := by
  unfold World.post
  rw [h.links]
  split
  · exact h
  · split
    · exact h.record (.finished t _)
    · rename_i topic _
      dsimp only
      rw [h.mint_id]
      rcases (like topic w.mint.1).either with ⟨m, m', hm, hm', same⟩ | ⟨e, hm, hm'⟩
      · simp only [hm, hm']
        exact h.mint.send t l same _
      · simp only [hm, hm']
        exact h.mint.record (.finished t _)

theorem rest (h : Alike L w v) (t : TaskId) (ms : Nat) : Alike L (w.rest t ms) (v.rest t ms) := by
  cases ms with
  | zero => exact h.record (.finished t _)
  | succ n => exact h.sleep t _ .rest

theorem start (h : Alike L w v) (t : TaskId) {o o' : Operation} (like : o.Alike L o') :
    Alike L (w.start t o) (v.start t o') := by
  cases like with
  | send l like => exact h.send t l like _
  | register l source sink key r => exact h.register t l source sink _ (.report r)
  | unregister l source sink key r => exact h.unregister t l source sink _ _
  | publish l resource like => exact h.post t l resource _ like
  | notify l resource destination like => exact h.post t l resource _ like
  | serve s method x kind => exact h.serve t s method kind
  | close e => exact h.close t e
  | call i method like => exact h.call t i method like
  | unencoded i method e options options' =>
    exact h.record (.refused t e)
  | await k => exact h.await t k none
  | rest ms => exact h.rest t ms

/-- A server may be made to answer with what is alike, as it comes out of the drafts. -/
theorem answer (h : Alike L w v) (t : TaskId) (s : ServerId) {r r' : Message}
    (request : r.attributes.isRequest = true) (asked : L.message r r') {d d' : Draft}
    {p p' : Option Payload}
    (like : Finishes L.message (d.finish w.mint.1 p) (d'.finish w.mint.1 p')) :
    Alike L (w.answer t s r d p) (v.answer t s r' d' p') := by
  unfold World.answer
  rw [h.servers]
  split
  · exact h
  · dsimp only
    rw [h.mint_id]
    rcases like.either with ⟨m, m', hm, hm', same⟩ | ⟨e, hm, hm'⟩
    · simp only [hm, hm']
      exact (h.mint.record (.answered s request asked same)).send t _ same _
    · simpa only [hm, hm'] using h.mint

theorem handleNow (h : Alike L w v) (t : TaskId) (s : ServerId) {x : Handler}
    (kind : L.handler x) {m m' : Message} (request : m.attributes.isRequest = true)
    (like : L.message m m') : Alike L (w.handleNow t s x m) (v.handleNow t s x m') :=
  h.answer t s request like (L.handled w.mint.1 kind like request)

theorem handle (h : Alike L w v) (t : TaskId) (s : ServerId) {x : Handler}
    (kind : L.handler x) {m m' : Message} (request : m.attributes.isRequest = true)
    (like : L.message m m') : Alike L (w.handle t s x m) (v.handle t s x m') := by
  have seen := h.record (.handled s x.key request like)
  unfold World.handle
  dsimp only
  split
  · exact seen.handleNow t s kind request like
  · exact seen.sleep t _ (.handle s x kind request like)

theorem dispatch (h : Alike L w v) (t : TaskId) {s : ServerId} {u : Server}
    (server : w.servers.get? s = some u) {m m' : Message} (like : L.message m m') :
    Alike L (w.dispatch t s u m) (v.dispatch t s u m') := by
  unfold World.dispatch
  rw [h.wall, ← u.judge_congr w.wall (L.frame like)]
  cases judged : u.judge w.wall m with
  | ignored => exact h
  | unserved draft =>
    obtain ⟨request, -⟩ := Server.judge_eq_unserved judged
    exact h.answer t s request like (.refl L.message_refl _)
  | served x =>
    obtain ⟨request, -⟩ := Server.judge_eq_served judged
    obtain ⟨method, handler⟩ := Server.mem_handlers_of_judge judged
    exact h.handle t s (h.handlers s u server _ handler) request like

/-! ## Turns -/

theorem deliver (h : Alike L w v) (paired : w.Paired) (t : TaskId) (l : Listener)
    {m m' : Message} (like : L.message m m') : Alike L (w.deliver t l m) (v.deliver t l m') := by
  have seen := h.record (.delivered l like)
  unfold World.deliver
  rcases l with key | i | s
  · exact seen
  · dsimp only
    rw [h.callers]
    split
    · exact h
    · split
      · exact h
      · exact seen.receive paired i _ like
  · dsimp only
    rw [h.servers]
    split
    · exact h
    · rename_i u server
      split
      · exact h
      · exact seen.dispatch t server like

theorem work (h : Alike L w v) (paired : w.Paired) (t : TaskId) {j j' : Job}
    (like : j.Alike L j') : Alike L (w.work t j) (v.work t j') := by
  cases like with
  | deliver l like => exact h.deliver paired t l like
  | handle s x kind request like => exact h.handleNow t s kind request like
  | deadline i id timeout => exact h.sleep t _ (.expire i id timeout)
  | expire i id timeout => exact h.complete_same i id (.lapsed timeout)
  | prepare like => exact h.prepare t like
  | resume like => exact h.resume t like
  | send l after like => exact h.sendNow t l like after
  | register l source sink listener like => exact h.registerNow t l source sink listener like
  | withdraw l sink e => exact h.unregister t l _ _ _ _
  | unregister l source sink listener after => exact h.unregisterNow t l source sink listener after
  | await k held => exact h.await t k held
  | start like => exact h.start t like
  | rest => exact h.record (.finished t _)

theorem abandon (h : Alike L w v) (i : CallerId) : Alike L (w.abandon i) (v.abandon i) := by
  unfold World.abandon
  rw [h.callers]
  split
  · exact h
  · rename_i c _
    have emptied := h.modifyCaller i fun c => { c with pending := [] }
    -- the calls that were pending are resolved one after the other
    generalize w.modifyCaller i _ = w', v.modifyCaller i _ = v' at emptied
    generalize c.pending = ps
    induction ps generalizing w' v' with
    | nil => exact emptied
    | cons p ps ih => exact ih _ _ (emptied.resolve p.call fun _ _ => L.outcome_refl _ _)

theorem remove (h : Alike L w v) (e : EngineId) (p : Seat) (side : Side) :
    Alike L (w.remove e p side) (v.remove e p side) := by
  have left := h.modifySeat (fun p => { p with gone := true }) e
  unfold World.remove
  cases e with
  | caller i =>
    dsimp only
    split
    · exact (left.abandon i).spawn (.withdraw _ _ _)
    · exact left.abandon i
  | server s =>
    dsimp only
    split
    · exact left.spawn (.withdraw _ _ _)
    · exact left

theorem release (h : Alike L w v) (e : EngineId) (side : Side) :
    Alike L (w.release e side) (v.release e side) := by
  unfold World.release
  rw [h.seat?]
  split
  · exact h
  · rw [h.isHeld]
    split
    · exact h
    · exact h.remove e _ _

theorem releaseAfter (h : Alike L w v) (t : TaskId) (held : Option EngineId) :
    Alike L (w.releaseAfter t held) (v.releaseAfter t held) := by
  unfold World.releaseAfter
  cases held with
  | none => exact h
  | some e =>
    rcases h.tasks.get? t with ⟨hw, hv⟩ | ⟨x, y, hw, hv, -⟩
    · simpa only [hw, hv] using h.release e _
    · simpa only [hw, hv] using h

theorem run (h : Alike L w v) (paired : w.Paired) (t : TaskId) : Alike L (w.run t) (v.run t) := by
  unfold World.run
  dsimp only
  rcases h.tasks.get? t with ⟨hw, hv⟩ | ⟨x, y, hw, hv, like⟩
  · simp only [hw, hv]
    exact { h with ready := congrArg (·.erase t) h.ready }
  · simp only [hw, hv, like.job.holds, like.cancelled]
    refine releaseAfter ?_ t _
    split
    · exact h.without t
    · exact (h.without t).work paired t like.job

theorem addLink (h : Alike L w v) (address : Address) :
    Alike L (w.addLink address).2 (v.addLink address).2 :=
  { h with links := congrArg (fun t => (t.insert { address := address }).2) h.links }

theorem setFault (h : Alike L w v) (l : LinkId) (a : Action) (fault : Fault) :
    Alike L (w.setFault l a fault) (v.setFault l a fault) :=
  { h with links := congrArg (·.modify l fun link => link.setFault fault a) h.links }

theorem closeLink (h : Alike L w v) (l : LinkId) : Alike L (w.closeLink l) (v.closeLink l) :=
  { h with
    links := congrArg (·.modify l fun link => { link with closed := true }) h.links
    hub := congrArg (·.withdraw l) h.hub }

theorem addCaller (h : Alike L w v) (l : LinkId) (reports : Bool) :
    Alike L (((w.addCaller l reports).map (·.2)).getD w)
      (((v.addCaller l reports).map (·.2)).getD v) := by
  unfold World.addCaller
  rw [h.links]
  cases w.links.get? l with
  | none => exact h
  | some link =>
    exact { h with
      links := rfl
      callers := congrArg (fun t => (t.insert (.onLink l link.address reports)).2) h.callers }

theorem addServer (h : Alike L w v) (l : LinkId) :
    Alike L (((w.addServer l).map (·.2)).getD w) (((v.addServer l).map (·.2)).getD v) := by
  unfold World.addServer
  rw [h.links]
  cases w.links.get? l with
  | none => exact h
  | some link =>
    refine { h with
      links := rfl
      servers := congrArg (fun t => (t.insert (.onLink l link.address)).2) h.servers
      handlers := fun s u server x hx => ?_ }
    simp only [Option.map_some, Option.getD_some, Table.get?_insert] at server
    split at server
    · cases server
      cases hx
    · exact h.handlers s u server x hx

theorem hold (h : Alike L w v) (e : EngineId) : Alike L (w.hold e) (v.hold e) := h.modifySeat _ e

theorem letGo (h : Alike L w v) (e : EngineId) (side : Side) :
    Alike L (w.letGo e side) (v.letGo e side) :=
  (h.modifySeat _ e).release e side

theorem unserve (h : Alike L w v) (s : ServerId) (method : Address) (x : Handler) :
    Alike L (w.unserve s method x).2 (v.unserve s method x).2 := by
  unfold World.unserve
  rw [h.servers]
  split
  · exact h
  · rename_i u server
    split
    · exact h
    · rename_i u' unserved
      refine h.modifyServer s fun _ _ y hy => h.handlers s u server y ?_
      simp only [Server.unserve] at unserved
      split at unserved
      · cases unserved
      · split at unserved
        · cases unserved
          exact List.mem_of_mem_filter hy
        · cases unserved

theorem enter (h : Alike L w v) {o o' : Operation} (like : o.Alike L o') :
    Alike L (w.enter o).2 (v.enter o').2 := by
  have reserved : Alike L { w with tasks := w.tasks.reserve.2 }
      { v with tasks := v.tasks.reserve.2 } := { h with tasks := h.tasks.reserve }
  have key : v.tasks.reserve.1 = w.tasks.reserve.1 := h.tasks.next
  have started := reserved.start w.tasks.reserve.1 like
  unfold World.enter
  dsimp only
  rwa [key]

theorem obey (h : Alike L w v) {c c' : Command} (like : c.Alike L c') :
    Alike L (w.obey c) (v.obey c') := by
  cases like with
  | addLink address => exact h.addLink address
  | setFault l a fault => exact h.setFault l a fault
  | closeLink l => exact h.closeLink l
  | addCaller l reports => exact h.addCaller l reports
  | addServer l => exact h.addServer l
  | hold e => exact h.hold e
  | drop e side => exact h.letGo e side
  | invoke i method like => exact (h.invoke i method like).2
  | unserve s method x => exact h.unserve s method x
  | enter like => exact h.enter like
  | spawn like => exact h.spawn (.start like)

theorem fire (h : Alike L w v) (due : Nat) : Alike L (w.fire due) (v.fire due) := by
  have later : Alike L { w with now := due, timers := w.timers.filter (·.due != due) }
      { v with now := due, timers := v.timers.filter (·.due != due) } :=
    { h with now := rfl, timers := congrArg (List.filter (·.due != due)) h.timers }
  unfold World.fire
  dsimp only
  rw [h.timers] at later ⊢
  exact later.wakeAll _

theorem possible (h : Alike L w v) {a b : Act} (like : a.Alike L b) (possible : a.IsPossible w) :
    b.IsPossible v := by
  have owned : v.isOwned = w.isOwned := funext h.isOwned
  cases like with
  | command like =>
    have engine := like.engine?
    simpa only [Act.IsPossible, Command.isAllowed, owned, engine] using possible
  | turn t =>
    rw [Act.IsPossible, h.ready]
    exact possible
  | fire due =>
    rw [Act.IsPossible, nextDue, h.timers]
    exact possible
  | clock wall => trivial
  | inbound l like => trivial

/-- **Alike acts make alike worlds alike again.** -/
theorem act (h : Alike L w v) (paired : w.Paired) {a b : Act} (like : a.Alike L b) :
    Alike L (w.act a) (v.act b) := by
  cases like with
  | command like => exact h.obey like
  | turn t => exact h.run paired t
  | fire due => exact h.fire due
  | clock wall => exact { h with wall := rfl }
  | inbound l like => exact h.spawn (.deliver l like)

/-- **Alike runs are possible together**, and lead from alike worlds to alike worlds. -/
theorem after (h : Alike L w v) (tidy : w.Tidy) (docket : w.Docket) {as bs : List Act}
    (run : w.CanRun as) (like : List.Forall₂ (Act.Alike L) as bs) :
    v.CanRun bs ∧ Alike L (w.after as) (v.after bs) := by
  induction like generalizing w v with
  | nil => exact ⟨trivial, h⟩
  | @cons a b as bs like _ ih =>
    obtain ⟨tidy', docket'⟩ := Docket.kept.act run.1 trivial tidy docket
    obtain ⟨rest, same⟩ := ih (h.act docket.paired like) tidy' docket' run.2
    exact ⟨⟨h.possible like run.1, rest⟩, same⟩

end Alike

end World

end Switchboard
