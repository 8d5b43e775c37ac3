import Switchboard.Proofs.Moves

/-! # Every turn is made of moves

The functions that do a task's work, one after the other in the order in which
they call each other: each leads from a world in which the running task still
has the job to the world that the function gives. Main statements:
`run_parts` for a task's turn, `enter_moves` for an operation in the
foreground, `release_parts` for an engine that an owner lets go.
-/

namespace Switchboard.World

variable {w : World} {t : TaskId}

theorem sendNow_moves (free : w.tasks.get? t = none) (l : LinkId) (m : Message)
    (after : AfterSend) :
    Works (some t, w.park t (.send l m after)) (none, w.sendNow t l m after) := by
  unfold sendNow
  split
  · rename_i s refusal
    cases after with
    | request i id => exact .single (.refuse free refusal)
    | answer s' => exact .single (.pass free (.sendRefused l m _ s refusal (by simp)))
    | report r => exact .single (.pass free (.sendRefused l m _ s refusal (by simp)))
  · rename_i accepted
    have h : Works (some t, w.park t (.send l m after))
        (none, (w.broadcast m).recordAll (after.events t (.ok ()))) :=
      .single (.broadcast free accepted)
    cases after <;> exact h

theorem send_moves (free : w.tasks.get? t = none) (l : LinkId) (m : Message)
    (after : AfterSend) :
    Works (some t, (w.record (.sent l m)).park t (.send l m after)) (none, w.send t l m after) := by
  have free' : (w.record (.sent l m)).tasks.get? t = none := by simpa using free
  unfold send
  dsimp only
  split
  · exact sendNow_moves free' l m after
  · exact .single (.doze free' (.send l m after))

theorem useListener_moves (free : w.tasks.get? t = none) (u : Use) :
    Works ((w.onward t u).2.map fun _ => t, w.proceed t (w.onward t u).1 (w.onward t u).2)
      (none, w.useListener t u (.ok ())) := by
  cases u with
  | request i id m =>
    cases hc : w.callers.get? i with
    | none => simp [onward, useListener, hc, proceed, Works, Relation.ReflTransGen.refl]
    | some c => simpa [onward, useListener, hc, proceed] using send_moves free c.seat.link m _
  | serve s method h =>
    simp [onward, useListener, proceed, Works, Relation.ReflTransGen.refl]

theorem onward_settleCell (t : TaskId) (u : Use) (e : EngineId) (r : Except Status Unit)
    (w : World) : (w.settleCell e r).onward t u = w.onward t u := by
  cases u with
  | serve s method h => rfl
  | request i id m =>
    rcases settleCell_eq w e r with h | ⟨cell, ts, h⟩
    · rw [h]
    · rw [h]
      simp only [onward, wakeAll_keeps, modifySeat_callers]
      by_cases he : e = .caller i
      · rw [if_pos he]
        cases w.callers.get? i <;> rfl
      · rw [if_neg he]

theorem registerNow_of_error {l : LinkId} {source : Address} {sink : Option Address}
    {listener : Listener} {after : AfterRegister} {s : Status}
    (h : w.registration ⟨l, source, sink, listener⟩ = .error s) :
    w.registerNow t l source sink listener after = w.afterRegister t after (.error s) := by
  cases hr : w.refusal? l .register <;> simp_all [registerNow, registration]

theorem registerNow_of_ok {l : LinkId} {source : Address} {sink : Option Address}
    {listener : Listener} {after : AfterRegister} {hub : Hub}
    (h : w.registration ⟨l, source, sink, listener⟩ = .ok hub) :
    w.registerNow t l source sink listener after =
      { w with hub := hub }.afterRegister t after (.ok ()) := by
  cases hr : w.refusal? l .register <;> simp_all [registerNow, registration]

theorem registerNow_moves (free : w.tasks.get? t = none) (l : LinkId) (source : Address)
    (sink : Option Address) (listener : Listener) (after : AfterRegister) :
    Works (some t, w.park t (.register l source sink listener after))
      (none, w.registerNow t l source sink listener after) := by
  cases hr : w.registration ⟨l, source, sink, listener⟩ with
  | error s =>
    rw [registerNow_of_error hr]
    cases after with
    | report p => exact .single (.pass free (.registerRefused ⟨l, source, sink, listener⟩ p s hr))
    | use u =>
      cases u with
      | request i id m =>
        exact .single (.failRequest (r := ⟨l, source, sink, listener⟩) free hr)
      | serve sv method h =>
        exact .single (.failServe (r := ⟨l, source, sink, listener⟩) free hr)
  | ok hub =>
    rw [registerNow_of_ok hr]
    cases after with
    | report p => exact .single (.enlist (r := ⟨l, source, sink, listener⟩) free hr)
    | use u =>
      refine .head (Move.enrol (r := ⟨l, source, sink, listener⟩) free hr) ?_
      let v := ({ w with hub := hub }.record (.attempted u.engine (.ok ()))).settleCell u.engine
        (.ok ())
      have hv : v.onward t u = w.onward t u := by
        rw [onward_settleCell]
        cases u <;> rfl
      have hf : v.tasks.get? t = none := by simpa [v] using free
      have h := useListener_moves hf u
      rw [hv] at h
      exact h

theorem register_moves (free : w.tasks.get? t = none) (l : LinkId) (source : Address)
    (sink : Option Address) (listener : Listener) (after : AfterRegister) :
    Works (some t, w.park t (.register l source sink listener after))
      (none, w.register t l source sink listener after) := by
  unfold register
  split
  · exact registerNow_moves free l source sink listener after
  · exact .single (.doze free (.register l source sink listener after))

theorem prepare_moves (free : w.tasks.get? t = none) (u : Use) :
    Works (some t, w.park t (.prepare u)) (none, w.prepare t u) := by
  unfold prepare
  cases hs : w.seat? u.engine with
  | none =>
    simp only [cell?, hs, Option.map_none]
    exact .single (.pass free (.seatless u _ (.inl rfl) hs))
  | some p =>
    have hc : w.cell? u.engine = some p.cell := by simp [cell?, hs]
    rw [hc]
    cases hp : p.cell with
    | registered =>
      exact .head (.pass free (.useAtOnce u (hc.trans (congrArg some hp))))
        (useListener_moves free u)
    | vacant =>
      refine .head (.claim free hs hp) ?_
      have hf : (w.modifySeat (fun p => { p with cell := .attempting [] }) u.engine).tasks.get? t
          = none := by simpa using free
      simp only [attempt, modifySeat_seat?, hs, if_true, Option.map_some]
      exact register_moves hf ..
    | attempting waiting => exact .single (.wait free hs hp)

theorem resume_moves (free : w.tasks.get? t = none) (u : Use) :
    Works (some t, w.park t (.resume u)) (none, w.resume t u) := by
  unfold resume
  split
  · rename_i hc
    exact .head (.pass free (.use u hc)) (useListener_moves free u)
  · rename_i hc
    unfold attempt
    split
    · rename_i hs
      exact .single (.pass free (.seatless u _ (.inr rfl) hs))
    · rename_i p hs
      have hp : p.cell ≠ .registered := by
        intro h
        exact hc (by simp [cell?, hs, h])
      exact .head (.pass free (.attempt u p hs hp)) (register_moves free ..)

theorem unregisterNow_of_error {l : LinkId} {source : Address} {sink : Option Address}
    {listener : Listener} {after : AfterUnregister} {s : Status}
    (h : w.unregistration l source sink listener = .error s) :
    w.unregisterNow t l source sink listener after = w.afterUnregister t after (.error s) := by
  cases hr : w.refusal? l .unregister <;> simp_all [unregisterNow, unregistration]

theorem unregisterNow_of_ok {l : LinkId} {source : Address} {sink : Option Address}
    {listener : Listener} {after : AfterUnregister} {hub : Hub}
    (h : w.unregistration l source sink listener = .ok hub) :
    w.unregisterNow t l source sink listener after =
      { w with hub := hub }.afterUnregister t after (.ok ()) := by
  cases hr : w.refusal? l .unregister <;> simp_all [unregisterNow, unregistration]

theorem unregisterNow_moves (free : w.tasks.get? t = none) (l : LinkId) (source : Address)
    (sink : Option Address) (listener : Listener) (after : AfterUnregister) :
    Works (some t, w.park t (.unregister l source sink listener after))
      (none, w.unregisterNow t l source sink listener after) := by
  cases hr : w.unregistration l source sink listener with
  | error s =>
    rw [unregisterNow_of_error hr]
    have h := Works.single (Move.pass free (.unregisterRefused l source sink listener after s hr))
    cases after <;> exact h
  | ok hub =>
    rw [unregisterNow_of_ok hr]
    have h : Works (some t, w.park t (.unregister l source sink listener after))
        (none, { w with hub := hub }.recordAll (after.events t (.ok ()))) :=
      .single (.unlist free hr)
    cases after <;> exact h

theorem unregister_moves (free : w.tasks.get? t = none) (l : LinkId) (source : Address)
    (sink : Option Address) (listener : Listener) (after : AfterUnregister) :
    Works (some t, w.park t (.unregister l source sink listener after))
      (none, w.unregister t l source sink listener after) := by
  unfold unregister
  split
  · exact unregisterNow_moves free l source sink listener after
  · exact .single (.doze free (.unregister l source sink listener after))

/-! ## Operations -/

theorem await_moves (free : w.tasks.get? t = none) (k : CallId) (held : Option CallerId) :
    Works (some t, w.park t (.await k held)) (none, w.await t k held) := by
  unfold await
  split
  · rename_i hk
    exact .single (.pass free (.callless k held hk))
  · rename_i call hk
    split
    · rename_i o ho
      exact .single (.pass free (.resolved k held call o hk ho))
    · rename_i ho
      exact .single (.await free hk ho)

theorem invoke_free (free : w.tasks.get? t = none) (lt : t < w.tasks.next) (i : CallerId)
    (method : Address) (payload : Option Payload) (options : CallOptions) :
    (w.invoke i method payload options).2.tasks.get? t = none := by
  unfold invoke
  split
  · exact free
  · split
    · exact free
    · dsimp only
      split
      · exact free
      · split
        · exact free
        · have h1 : t ≠ w.tasks.next := Nat.ne_of_lt lt
          have h2 : t ≠ w.tasks.next + 1 := Nat.ne_of_lt (Nat.lt_succ_of_lt lt)
          simpa [h1, h2] using free

theorem call_moves (free : w.tasks.get? t = none) (lt : t < w.tasks.next) (i : CallerId)
    (method : Address) (payload : Except Failure (Option Payload)) (options : CallOptions) :
    Works (some t, w.park t (.start (.call i method payload options)))
      (none, w.call t i method payload options) := by
  cases payload with
  | error e => exact .single (.pass free (.callUnencodable i method e options))
  | ok payload =>
    simp only [call]
    have hfree := invoke_free free lt i method payload options
    cases hi : w.invoke i method payload options with
    | mk result v =>
      rw [hi] at hfree
      cases result with
      | error e => exact .single (.callRefused free hi)
      | ok accepted => exact .head (.call free hi) (await_moves hfree ..)

theorem serve_moves (free : w.tasks.get? t = none) (s : ServerId) (method : Address)
    (h : Handler) :
    Works (some t, w.park t (.start (.serve s method h))) (none, w.serve t s method h) := by
  unfold serve
  split
  · rename_i hs
    exact .single (.pass free (.serveNowhere s method h hs))
  · rename_i v hs
    split
    · rename_i e he
      exact .single (.pass free (.serveRefused s v method h e hs he))
    · rename_i he
      exact .head (.addHandler free hs he) (prepare_moves (by simpa [modifyServer] using free) _)

theorem close_moves (free : w.tasks.get? t = none) (e : EngineId) :
    Works (some t, w.park t (.start (.close e))) (none, w.close t e) := by
  unfold close
  split
  · rename_i hs
    exact .single (.pass free (.closeNowhere e hs))
  · rename_i p hs
    split
    · rename_i hp
      exact .single (.pass free (.closedBefore e p hs hp))
    · rename_i hp
      have hp : p.closed = false := by simpa using hp
      dsimp only
      split
      · rename_i hc
        exact .head (.closeListening free hs hp (by simpa using hc))
          (unregister_moves (by simpa using free) ..)
      · rename_i hc
        exact .single (.closeDeaf free hs hp (by simpa using hc))

theorem post_moves (free : w.tasks.get? t = none) {o : Operation} {l : LinkId}
    {resource : UInt16} {draft : Address → Draft} {payload : Option Payload}
    {options : SendOptions} (posting : o.posting? = some (l, resource, draft, payload, options)) :
    Works (some t, w.park t (.start o)) (none, w.post t l resource draft payload options) := by
  unfold post
  split
  · rename_i hl
    exact .single (.pass free (.postNowhere o l resource draft payload options posting hl))
  · rename_i link hl
    split
    · rename_i e ht
      exact .single (.pass free
        (.postOffTopic o l resource draft payload options link e posting hl ht))
    · rename_i topic ht
      dsimp only
      split
      · rename_i e hf
        exact .single (.postInvalid free posting hl ht hf)
      · rename_i m hf
        exact .head (.post free posting hl ht hf) (send_moves (by simpa using free) l m _)

theorem start_moves (free : w.tasks.get? t = none) (lt : t < w.tasks.next) (o : Operation) :
    Works (some t, w.park t (.start o)) (none, w.start t o) := by
  cases o with
  | send l m => exact .head (.pass free (.startSend l m)) (send_moves free l m _)
  | register l source sink key r =>
    exact .head (.pass free (.startRegister l source sink key r)) (register_moves free ..)
  | unregister l source sink key r =>
    exact .head (.pass free (.startUnregister l source sink key r)) (unregister_moves free ..)
  | publish l resource payload options => exact post_moves free rfl
  | notify l resource destination payload options => exact post_moves free rfl
  | serve s method h => exact serve_moves free s method h
  | close e => exact close_moves free e
  | call i method payload options => exact call_moves free lt i method payload options
  | await k => exact .head (.pass free (.startAwait k)) (await_moves free k none)
  | rest ms =>
    cases ms with
    | zero => exact .single (.pass free .restBriefly)
    | succ ms => exact .single (.rest free)

theorem answer_moves (free : w.tasks.get? t = none) {s : ServerId} {m : Message} {j : Job}
    {es : List Event} {draft : Draft} {payload : Option Payload}
    (server : (w.servers.get? s).isSome) (replies : Replies w s m j es draft payload) :
    Works (some t, w.park t j) (none, (w.recordAll es).answer t s m draft payload) := by
  obtain ⟨v, hv⟩ := Option.isSome_iff_exists.mp server
  have hv' : (w.recordAll es).servers.get? s = some v := by simpa using hv
  have hm : (w.recordAll es).mint.1 = w.mint.1 := by simp
  simp only [answer, hv', hm]
  split
  · rename_i e hf
    exact .single (.mute free hv replies hf)
  · rename_i a hf
    exact .head (.reply free hv replies hf) (send_moves (by simpa using free) ..)

theorem handleNow_moves (free : w.tasks.get? t = none) (s : ServerId) (h : Handler)
    (m : Message) : Works (some t, w.park t (.handle s h m)) (none, w.handleNow t s h m) := by
  unfold handleNow
  cases hs : w.servers.get? s with
  | none =>
    simp only [answer, hs]
    exact .single (.pass free (.unattended s h m hs))
  | some v => exact answer_moves free (by simp [hs]) (.ended h)

theorem deliver_moves (free : w.tasks.get? t = none) (l : Listener) (m : Message) :
    Works (some t, w.park t (.deliver l m)) (none, w.deliver t l m) := by
  cases l with
  | plain key => exact .single (.pass free (.noted key m))
  | engine e =>
    cases e with
    | caller i =>
      simp only [deliver]
      split
      · rename_i hc
        exact .single (.pass free (.lost _ m (by simp [seat?, hc])))
      · rename_i c hc
        split
        · rename_i hg
          exact .single (.pass free (.lost _ m (by simpa [seat?, hc] using hg)))
        · rename_i hg
          have hg : c.seat.gone = false := by simpa using hg
          unfold receive
          split
          · rename_i ha
            have h := Works.single (Move.pass free (.unexpected i c m hc hg ha))
            unfold reportUnexpected
            split <;> simpa [proceed, *] using h
          · rename_i id ha
            have h := Works.single (Move.answered free hc hg ha)
            cases hp : c.pending? id with
            | none =>
              simp only [Option.isSome_none, Bool.false_eq_true, if_false, reportUnexpected]
              cases hr : c.reportsUnexpected <;> simpa [hp, hr] using h
            | some p => simpa [hp] using h
    | server s =>
      simp only [deliver]
      split
      · rename_i hs
        exact .single (.pass free (.lost _ m (by simp [seat?, hs])))
      · rename_i v hs
        split
        · rename_i hg
          exact .single (.pass free (.lost _ m (by simpa [seat?, hs] using hg)))
        · rename_i hg
          have hg : v.seat.gone = false := by simpa using hg
          unfold dispatch
          simp only [record_keeps]
          split
          · rename_i hj
            exact .single (.pass free (.ignored s v m hs hg hj))
          · rename_i draft hj
            exact answer_moves free (by simp [hs]) (.unserved v draft hs hg hj)
          · rename_i h hj
            refine .head (.pass free (.served s v h m hs hg hj)) ?_
            unfold handle
            dsimp only
            split
            · exact handleNow_moves (by simpa using free) s h m
            · exact .single (.doze (by simpa using free) (.handle s h m))

/-! ## Turns -/

theorem work_moves (free : w.tasks.get? t = none) (lt : t < w.tasks.next) (j : Job) :
    Works (some t, w.park t j) (none, w.work t j) := by
  cases j with
  | deliver l m => exact deliver_moves free l m
  | handle s h m => exact handleNow_moves free s h m
  | deadline i id timeout => exact .single (.arm free)
  | expire i id timeout => exact .single (.expire free)
  | prepare u => exact prepare_moves free u
  | resume u => exact resume_moves free u
  | send l m after => exact sendNow_moves free l m after
  | register l source sink listener after => exact registerNow_moves free ..
  | withdraw l sink e =>
    exact .head (.pass free (.withdraw l sink e)) (unregister_moves free ..)
  | unregister l source sink listener after => exact unregisterNow_moves free ..
  | await k held => exact await_moves free k held
  | start o => exact start_moves free lt o
  | rest => exact .single (.pass free .rested)

/-- At most one engine goes away. Nobody holds it, and it may go on this side of the runtime. -/
inductive Parts (may : EngineId → Side → Prop) (w : World) : World → Prop
  | stays : Parts may w w
  | goes {e : EngineId} {p : Seat} {side : Side} (allowed : may e side) (seat : w.seat? e = some p)
      (unowned : p.handles = 0) (alive : p.gone = false) (unheld : w.isHeld e = false) :
    Parts may w (w.remove e p side)

theorem Parts.moves {may : EngineId → Side → Prop} {v : World} (h : Parts may w v) :
    Moves (none, w) (none, v) := by
  cases h with
  | stays => exact .refl
  | goes allowed seat unowned alive unheld => exact .single (.remove seat unowned alive unheld)

theorem release_parts {may : EngineId → Side → Prop} {e : EngineId} {side : Side} (w : World)
    (allowed : may e side) : Parts may w (w.release e side) := by
  unfold release
  split
  · exact .stays
  · rename_i p hp
    split
    · exact .stays
    · rename_i h
      simp only [Bool.or_eq_true, decide_eq_true_eq, not_or, Bool.not_eq_true] at h
      exact .goes allowed hp (by omega) h.1.2 h.2

theorem releaseAfter_parts {may : EngineId → Side → Prop} (inside : ∀ e, may e .inside) (w : World)
    (t : TaskId) (held : Option EngineId) : Parts may w (w.releaseAfter t held) := by
  unfold releaseAfter
  split
  · exact release_parts w (inside _)
  · exact .stays

theorem releaseAfter_cases (w : World) (t : TaskId) (held : Option EngineId) :
    w.releaseAfter t held = w ∨ ∃ e p, w.releaseAfter t held = w.remove e p .inside := by
  have parts : Parts (fun _ => Eq .inside) w (w.releaseAfter t held) :=
    releaseAfter_parts (fun _ => rfl) w t held
  generalize w.releaseAfter t held = v at parts
  cases parts with
  | stays => exact .inl rfl
  | goes allowed =>
    subst allowed
    exact .inr ⟨_, _, rfl⟩

@[simp] theorem releaseAfter_keeps (w : World) (t : TaskId) (held : Option EngineId) :
    (w.releaseAfter t held).events = w.events ∧ (w.releaseAfter t held).ids = w.ids := by
  rcases releaseAfter_cases w t held with he | ⟨e, p, he⟩ <;> simp [he]

@[simp] theorem releaseAfter_hub (w : World) (t : TaskId) (held : Option EngineId) :
    (w.releaseAfter t held).hub = w.hub := by
  rcases releaseAfter_cases w t held with he | ⟨e, p, he⟩ <;> simp [he]

theorem run_of_task {j : Job} (task : w.tasks.get? t = some ⟨j, false⟩) :
    w.run t = ((w.without t).work t j).releaseAfter t j.holds := by
  simp [run, task, without]

/-- **A task's turn is made of moves**, once the task has left the queue; then it may let its
engine go. -/
theorem run_parts {may : EngineId → Side → Prop} (inside : ∀ e, may e .inside)
    (fresh : w.tasks.Fresh) {j : Job} (task : w.tasks.get? t = some ⟨j, false⟩) :
    ∃ u, Works (some t, (w.without t).park t j) (none, u) ∧ Parts may u (w.run t) := by
  have free : (w.without t).tasks.get? t = none := by simp
  have lt : t < (w.without t).tasks.next := fresh.lt task
  exact ⟨_, work_moves free lt j, run_of_task task ▸ releaseAfter_parts inside ..⟩

/-- A cancelled task only lets its engine go. -/
theorem cancelled_parts {may : EngineId → Side → Prop} (inside : ∀ e, may e .inside) {j : Job}
    (task : w.tasks.get? t = some ⟨j, true⟩) : Parts may (w.without t) (w.run t) := by
  simp only [run, task]
  exact releaseAfter_parts inside ..

/-- **An operation in the foreground is made of moves**, once its task has a key. -/
theorem enter_moves (fresh : w.tasks.Fresh) (o : Operation) :
    Works (some w.tasks.next,
      { w with tasks := w.tasks.reserve.2 }.park w.tasks.next (.start o)) (none, (w.enter o).2) :=
  start_moves (by simpa using fresh.next) (Nat.lt_succ_self _) o

end Switchboard.World
