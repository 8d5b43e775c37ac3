import Switchboard.Proofs.Wakes
import Switchboard.Proofs.Registrations
import Switchboard.Proofs.Listening

/-! # One attempt at a time

The cell of an engine lets one task at a time try to register the engine's
listener. `Turns` says all that becomes of a cell: a task claims it, a task queues
up in it, or the attempt ends and hands it on. `InTurn` is what makes this work,
in every moment of a run: of the tasks that have asked for the listener all wait in
the cell but one, those that wait are not ready, and nobody tries any more once the
listener is registered. Main statements: `InTurn.kept`, and from it that an engine
whose listener is registered is never registered again (`InTurn.settled`).
-/

namespace Switchboard

/-- The use for which the task registers an engine's own listener. -/
def Job.registers? : Job → Option Use
  | .register _ _ _ _ (.use u) => some u
  | _ => none

/-- The use for which the task has asked for an engine's own listener and found none. -/
def Job.attempts? : Job → Option Use
  | .resume u => some u
  | .register _ _ _ _ (.use u) => some u
  | _ => none

theorem Job.attempts_of_registers {j : Job} {u : Use} (h : j.registers? = some u) :
    j.attempts? = some u := by
  cases j with
  | register l source sink listener after => cases after <;> simp_all [registers?, attempts?]
  | _ => cases h

theorem Job.attempts_of_begins {j : Job} (h : j.begins = true) : j.attempts? = none := by
  cases j with
  | resume u => cases h
  | register l source sink listener after => cases h
  | _ => rfl

namespace World

def Tries (w : World) (e : EngineId) (k : TaskId) : Prop :=
  ∃ x u, w.tasks.get? k = some x ∧ x.job.attempts? = some u ∧ u.engine = e

inductive Turns (a b : Option TaskId × World) (e : EngineId) : Prop
  /-- The running task is the first that needs the listener. -/
  | claimed (w : World) (t : TaskId) (u : Use) (running : a = (some t, w.park t (.prepare u)))
      (own : u.engine = e) (before : a.2.cell? e = some .vacant)
      (after : b.2.cell? e = some (.attempting []))
  /-- The running task queues up. -/
  | queued (w : World) (t : TaskId) (u : Use) (ws : List TaskId)
      (running : a = (some t, w.park t (.prepare u))) (own : u.engine = e) (waits : b.1 = none)
      (task : b.2.tasks.get? t = some ⟨.resume u, false⟩) (ready : b.2.ready = a.2.ready)
      (before : a.2.cell? e = some (.attempting ws))
      (after : b.2.cell? e = some (.attempting (ws ++ [t])))
  /-- The running task's attempt ends. -/
  | ended (w : World) (t : TaskId) (r : Registration) (u : Use) (ws : List TaskId)
      (running : a = (some t, w.park t (.register r.owner r.source r.sink r.listener (.use u))))
      (own : u.engine = e) (ends : ¬b.2.Tries e t) (before : a.2.cell? e = some (.attempting ws))
      (after : b.2.cell? e = some .registered ∨ ws = [] ∧ b.2.cell? e = some .vacant ∨
        ∃ k rest, ws = k :: rest ∧ b.2.cell? e = some (.attempting rest))

variable {w v : World} {e e' : EngineId} {k t : TaskId}

theorem cell?_congr (seats : v.seat? e = w.seat? e) : v.cell? e = w.cell? e := by
  rw [cell?, seats, cell?]

theorem cell?_of_map {f : Seat → Seat}
    (seats : v.seat? e = if e' = e then (w.seat? e).map f else w.seat? e)
    (cells : ∀ p, (f p).cell = p.cell) : v.cell? e = w.cell? e := by
  rw [cell?, seats]
  split
  · rw [Option.map_map]
    exact congrArg (fun g => (w.seat? e).map g) (funext cells)
  · rfl

theorem cell?_modifySeat (w : World) (cell : Cell) (e e' : EngineId) :
    (w.modifySeat (fun p => { p with cell := cell }) e).cell? e' =
      if e = e' then (w.cell? e').map fun _ => cell else w.cell? e' := by
  rw [cell?, modifySeat_seat?]
  split
  · rw [cell?, Option.map_map, Option.map_map]
    rfl
  · rfl

/-- Where one engine's cell is given a new content, it has it, and the other cells are as before. -/
theorem cell?_of_modify {cell cell' : Cell} (before : w.cell? e = some cell)
    (seats : v.seat? e' = (w.modifySeat (fun p => { p with cell := cell' }) e).seat? e') :
    e ≠ e' ∧ v.cell? e' = w.cell? e' ∨ e = e' ∧ v.cell? e' = some cell' := by
  have becomes := (cell?_congr seats).trans (cell?_modifySeat w cell' e e')
  by_cases he : e = e'
  · rw [if_pos he, ← he, before] at becomes
    exact .inr ⟨he, he ▸ becomes⟩
  · exact .inl ⟨he, by rwa [if_neg he] at becomes⟩

/-- An attempt that ends leaves the cells of the other engines alone. -/
theorem cell?_settleCell (w : World) (e e' : EngineId) (r : Except Status Unit) :
    (w.settleCell e r).cell? e' = w.cell? e' ∨ e = e' ∧ ∃ ws, w.cell? e' = some (.attempting ws) ∧
      ((w.settleCell e r).cell? e' = some .registered ∨
        ws = [] ∧ (w.settleCell e r).cell? e' = some .vacant ∨
        ∃ k rest, ws = k :: rest ∧ (w.settleCell e r).cell? e' = some (.attempting rest)) := by
  generalize hv : w.settleCell e r = v
  unfold settleCell at hv
  split at hv <;> subst hv
  · rename_i ws cell
    rcases cell?_of_modify cell (wakeAll_seat? _ _ e') with ⟨-, same⟩ | ⟨rfl, registered⟩
    · exact .inl same
    · exact .inr ⟨rfl, ws, cell, .inl registered⟩
  · rename_i s cell
    rcases cell?_of_modify cell (Eq.refl (World.seat? _ e')) with ⟨-, same⟩ | ⟨rfl, vacant⟩
    · exact .inl same
    · exact .inr ⟨rfl, [], cell, .inr (.inl ⟨rfl, vacant⟩)⟩
  · rename_i k rest s cell
    rcases cell?_of_modify cell (wake_seat? _ _ e') with ⟨-, same⟩ | ⟨rfl, next⟩
    · exact .inl same
    · exact .inr ⟨rfl, k :: rest, cell, .inr (.inr ⟨k, rest, rfl, next⟩)⟩
  · exact .inl rfl

theorem attempts_of_onward {u : Use} {x : Task} (free : w.tasks.get? t = none)
    (tasks : v.tasks = (w.onward t u).2.elim w.tasks fun j => w.tasks.set t ⟨j, false⟩)
    (task : v.tasks.get? t = some x) : x.job.attempts? = none := by
  rw [tasks] at task
  cases u with
  | request i id m =>
    simp only [onward] at task
    split at task
    · simp [free] at task
    · simp only [Option.elim_some, Table.get?_set, if_true] at task
      cases task
      rfl
  | serve s method h => simp [onward, free] at task

end World

open World in
/-- **All that becomes of a cell** in a move. -/
theorem Move.cell {a b : Option TaskId × World} (hm : Move a b) (e : EngineId) :
    b.2.cell? e = a.2.cell? e ∨ Turns a b e := by
  have settled : ∀ {w v : World} {t : TaskId} {r : Registration} {u : Use}
      (result : Except Status Unit),
      a = (some t, w.park t (.register r.owner r.source r.sink r.listener (.use u))) →
      (∀ e, v.seat? e = w.seat? e) →
      (∀ e, b.2.seat? e = (v.settleCell u.engine result).seat? e) →
      (∀ x, b.2.tasks.get? t = some x → x.job.attempts? = none) →
      b.2.cell? e = a.2.cell? e ∨ Turns a b e := by
    intro w v t r u result ha seats after ends
    have before : a.2.cell? e = v.cell? e := by
      rw [ha]
      exact cell?_congr ((park_seat? ..).trans (seats e).symm)
    have becomes := cell?_congr (after e)
    rcases cell?_settleCell v u.engine e result with same | ⟨own, ws, attempting, next⟩
    · exact .inl (becomes.trans (same.trans before.symm))
    · refine .inr (.ended w t r u ws ha own (fun hx => ?_) (before.trans attempting) ?_)
      · obtain ⟨x, u', task, attempts, -⟩ := hx
        rw [ends x task] at attempts
        cases attempts
      · rwa [becomes]
  cases hm with
  | @remove w e' p side seat unowned alive unheld =>
    exact .inl (cell?_of_map (remove_seat? w e' p side e) fun _ => rfl)
  | @claim w t u p free seat vacant =>
    have before : w.cell? u.engine = some .vacant := by rw [cell?, seat, ← vacant]; rfl
    rcases cell?_of_modify before (park_seat? _ _ _ e) with ⟨-, same⟩ | ⟨rfl, becomes⟩
    · exact .inl same
    · exact .inr (.claimed w t u rfl rfl before becomes)
  | @wait w t u p waiting free seat attempting =>
    have before : w.cell? u.engine = some (.attempting waiting) := by
      rw [cell?, seat, ← attempting]
      rfl
    rcases cell?_of_modify before (park_seat? _ _ _ e) with ⟨-, same⟩ | ⟨rfl, becomes⟩
    · exact .inl same
    · exact .inr (.queued w t u waiting rfl rfl rfl (by simp) (by simp) before becomes)
  | @enrol w t r u hub free registration =>
    refine settled (v := { w with hub := hub }.record (.attempted u.engine (.ok ()))) (.ok ()) rfl
      (fun e => seat?_congr (fun _ => rfl) (fun _ => rfl) e)
      (fun e => seat?_congr (by simp) (by simp) e) fun x task => ?_
    exact attempts_of_onward (u := u) free (by simp) task
  | @failRequest w t r i id m s free refusal =>
    refine settled (u := .request i id m) (v := w.record (.attempted (.caller i) (.error s)))
      (.error s) rfl (by simp) (complete_seat? _ _ _ _) fun x task => ?_
    obtain ⟨y, task, -⟩ := complete_task task
    simp [free] at task
  | @failServe w t r sv m h s free refusal =>
    refine settled (u := .serve sv m h) (v := w.record (.attempted (.server sv) (.error s)))
      (.error s) rfl (by simp)
      (fun e => (record_seat? ..).trans
        (modifyServer_seat? _ sv (fun _ _ => removeSame_seat ..) e)) fun x task => ?_
    simp [free] at task
  | expire free => exact .inl (cell?_congr (complete_seat? ..))
  | answered free caller alive answers =>
    exact .inl (cell?_congr ((recordAll_seat? ..).trans (complete_seat? ..)))
  | refuse free refusal => exact .inl (cell?_congr (complete_seat? ..))
  | @addHandler w t s v m hd free server vacant =>
    exact .inl (cell?_congr (modifyServer_seat? w s (f := (·.addHandler m hd)) (fun _ _ => rfl) e))
  | @closeListening w t e' p free seat opened registered =>
    exact .inl (cell?_of_map ((park_seat? ..).trans (modifySeat_seat? w _ e' e)) fun _ => rfl)
  | @closeDeaf w t e' p free seat opened unregistered =>
    exact .inl (cell?_of_map ((record_seat? ..).trans (modifySeat_seat? w _ e' e)) fun _ => rfl)
  | @call w v t i method payload options accepted free invoked =>
    have seats := invoke_seat? w i method payload options e
    rw [invoked] at seats
    exact .inl (cell?_congr seats)
  | @callRefused w v t i method payload options e' free invoked =>
    have seats := invoke_seat? w i method payload options e
    rw [invoked] at seats
    exact .inl (cell?_congr seats)
  | _ => exact .inl (cell?_congr (seat?_congr (by simp) (by simp) e))

/-- The outset of an act leaves every cell alone; a new engine's is vacant. -/
theorem Outset.cell {w : World} {a : Act} {b : Option TaskId × World} (ho : Outset w a b)
    (tidy : w.Tidy) (e : EngineId) :
    b.2.cell? e = w.cell? e ∨ w.cell? e = none ∧ b.2.cell? e = some .vacant := by
  cases ho with
  | addCaller l link reports linked =>
    cases e with
    | server s => exact .inl rfl
    | caller i =>
      simp only [World.cell?, World.seat?, Table.get?_insert]
      split
      · rename_i hi
        rw [hi, tidy.callers.next]
        exact .inr ⟨rfl, rfl⟩
      · exact .inl rfl
  | addServer l link linked =>
    cases e with
    | caller i => exact .inl rfl
    | server s =>
      simp only [World.cell?, World.seat?, Table.get?_insert]
      split
      · rename_i hs
        rw [hs, tidy.servers.next]
        exact .inr ⟨rfl, rfl⟩
      · exact .inl rfl
  | hold e' owned =>
    exact .inl (World.cell?_of_map (World.modifySeat_seat? w _ e' e) fun _ => rfl)
  | drop e' side owned =>
    exact .inl (World.cell?_of_map (World.modifySeat_seat? w _ e' e) fun _ => rfl)
  | invoke i method payload options owned =>
    exact .inl (World.cell?_congr (World.invoke_seat? ..))
  | unserve s v v' method hd server unserved =>
    refine .inl (World.cell?_congr (World.modifyServer_seat? _ _ (fun u hu => ?_) e))
    cases server.symm.trans hu
    exact World.unserve_seat unserved
  | fire due next =>
    refine .inl (World.cell?_congr (World.seat?_congr ?_ ?_ e)) <;> simp [World.fire]
  | _ => exact .inl rfl

theorem Outset.running {w : World} {a : Act} {b : Option TaskId × World} (ho : Outset w a b)
    {t : TaskId} (runs : b.1 = some t) : t ∈ w.ready ∨ w.tasks.next ≤ t := by
  cases ho with
  | take t' j ready task =>
    cases runs
    exact .inl ready
  | enter o allowed =>
    cases runs
    exact .inr (Nat.le_refl _)
  | _ => cases runs

theorem Outset.keeps_other {w : World} {a : Act} {b : Option TaskId × World} (ho : Outset w a b)
    (tidy : w.Tidy) {k : TaskId} {x : Task} (task : w.tasks.get? k = some x)
    (other : a ≠ .turn k) :
    b.2.tasks.get? k = some x := by
  have new : k ≠ w.tasks.next := Nat.ne_of_lt (tidy.tasks.lt task)
  cases ho with
  | take t j ready task' =>
    have other : k ≠ t := fun hk => other (by rw [hk])
    simpa [other] using task
  | discard t j ready task' =>
    have other : k ≠ t := fun hk => other (by rw [hk])
    simpa [other] using task
  | enter o allowed => simpa [new] using task
  | spawn o allowed => simpa [new] using task
  | inbound l m => simpa [new] using task
  | invoke i method payload options owned =>
    exact World.sub_invoke tidy i method payload options k x task
  | fire due next => simpa [World.fire] using task
  | hold e owned => simpa [World.hold] using task
  | drop e side owned => simpa using task
  | _ => exact task

theorem Outset.keeps_task {w : World} {a : Act} {b : Option TaskId × World} (ho : Outset w a b)
    (tidy : w.Tidy) {k : TaskId} {x : Task} (task : w.tasks.get? k = some x)
    (asleep : k ∉ w.ready) :
    b.2.tasks.get? k = some x := by
  refine ho.keeps_other tidy task fun turn => ?_
  subst turn
  cases ho with
  | take t j ready => exact asleep ready
  | discard t j ready => exact asleep ready
  | stale t ready => exact asleep ready

/-! ## Who tries -/

open World in
/-- A waiting task that goes on to register the listener has not found it registered. -/
theorem Move.unregistered {a b : Option TaskId × World} (hm : Move a b) {w : World} {t : TaskId}
    {u u' : Use} {x : Task} (ha : a = (some t, w.park t (.resume u)))
    (task : b.2.tasks.get? t = some x) (attempts : x.job.attempts? = some u') :
    a.2.cell? u.engine ≠ some .registered := by
  cases hm with
  | remove seat unowned alive unheld => cases ha
  | @pass w' t' j es next free passes =>
    obtain ⟨rfl, rfl⟩ := running_inj ha
    cases passes with
    | use u registered =>
      rw [attempts_of_onward (u := u) free (by simp) task] at attempts
      cases attempts
    | seatless u _ eq seat => simp [free] at task
    | attempt u p seat unregistered =>
      rw [cell?_congr (w := w') (park_seat? ..), cell?, seat]
      simpa using unregistered
  | doze free dozes =>
    obtain ⟨-, rfl⟩ := running_inj ha
    cases dozes
  | reply free server replies finish =>
    obtain ⟨-, rfl⟩ := running_inj ha
    cases replies
  | mute free server replies finish =>
    obtain ⟨-, rfl⟩ := running_inj ha
    cases replies
  | _ =>
    obtain ⟨-, he⟩ := running_inj ha
    cases he

open World in
/-- A task that finds the listener not registered claims the cell or queues up in it. -/
theorem Move.claims {a b : Option TaskId × World} (hm : Move a b) {w : World} {t : TaskId}
    {u u' : Use} {x : Task} (ha : a = (some t, w.park t (.prepare u)))
    (task : b.2.tasks.get? t = some x) (attempts : x.job.attempts? = some u') :
    b.2.cell? u.engine ≠ a.2.cell? u.engine := by
  cases hm with
  | remove seat unowned alive unheld => cases ha
  | @pass w' t' j es next free passes =>
    obtain ⟨rfl, rfl⟩ := running_inj ha
    cases passes with
    | useAtOnce u registered =>
      rw [attempts_of_onward (u := u) free (by simp) task] at attempts
      cases attempts
    | seatless u _ eq seat => simp [free] at task
  | doze free dozes =>
    obtain ⟨-, rfl⟩ := running_inj ha
    cases dozes
  | reply free server replies finish =>
    obtain ⟨-, rfl⟩ := running_inj ha
    cases replies
  | mute free server replies finish =>
    obtain ⟨-, rfl⟩ := running_inj ha
    cases replies
  | claim free seat vacant =>
    obtain ⟨rfl, he⟩ := running_inj ha
    cases he
    simp [cell?, seat, vacant]
  | wait free seat attempting =>
    obtain ⟨rfl, he⟩ := running_inj ha
    cases he
    simp [cell?, seat, attempting]
  | _ =>
    obtain ⟨-, he⟩ := running_inj ha
    cases he

open World in
/-- Who tries after a move has tried before, or has claimed the cell or queued up in it. Who
registers has registered before, or has waited and did not find the listener registered. -/
theorem Move.tries {a b : Option TaskId × World} (hm : Move a b) (tidy : a.2.Tidy) {k : TaskId}
    {x : Task} {u : Use} (task : b.2.tasks.get? k = some x) (attempts : x.job.attempts? = some u) :
    (∃ y, a.2.tasks.get? k = some y ∧ y.job.attempts? = some u ∧
      (x.job.registers? = some u → y.job.registers? = some u ∨
        a.2.cell? u.engine ≠ some .registered)) ∨
      b.2.cell? u.engine ≠ a.2.cell? u.engine ∧
        ∃ w : World, a = (some k, w.park k (.prepare u)) := by
  rcases hm.lineage tidy task with ⟨y, hy, same⟩ | ⟨w, j, ha, leads, -⟩ | ⟨-, begins, -⟩
  · exact .inl ⟨y, hy, same ▸ attempts, fun h => .inl (same ▸ h)⟩
  · have parked : a.2.tasks.get? k = some ⟨j, false⟩ := by rw [ha]; simp
    have asked : j.use? = some u ∧ j.mayWait = true ∨ j.registers? = some u := by
      generalize hj : x.job = j' at leads
      cases leads with
      | attempt j u' p use seat =>
        rw [hj] at attempts
        cases attempts
        cases j with
        | register l source sink listener after =>
          cases after <;> simp_all [Job.use?, Job.registers?]
        | prepare u' => exact .inl ⟨use, rfl⟩
        | resume u' => exact .inl ⟨use, rfl⟩
        | _ => cases use
      | wait u' =>
        rw [hj] at attempts
        cases attempts
        exact .inl ⟨rfl, rfl⟩
      | _ => rw [hj] at attempts; cases attempts
    rcases asked with ⟨use, mayWait⟩ | registers
    · cases j with
      | prepare u' =>
        cases use
        exact .inr ⟨hm.claims ha task attempts, w, ha⟩
      | resume u' =>
        cases use
        exact .inl ⟨_, parked, rfl, fun _ => .inr (hm.unregistered ha task attempts)⟩
      | _ => first | cases use | cases mayWait
    · exact .inl ⟨_, parked, Job.attempts_of_registers registers, fun _ => .inl registers⟩
  · rw [Job.attempts_of_begins begins] at attempts
    cases attempts

/-! ## One after the other -/

namespace World

/-- What is said of the tasks that have asked for one engine's listener. -/
structure Orderly (a : Option TaskId × World) (e : EngineId) : Prop where
  registering : ∀ k x u, a.2.tasks.get? k = some x → x.job.registers? = some u → u.engine = e →
    ∃ ws, a.2.cell? e = some (.attempting ws)
  trying : ∀ k, a.2.Tries e k →
    a.2.cell? e = some .registered ∨ ∃ ws, a.2.cell? e = some (.attempting ws)
  sole : ∀ ws k k', a.2.cell? e = some (.attempting ws) → a.2.Tries e k → a.2.Tries e k' →
    k ∉ ws → k' ∉ ws → k = k'
  nodup : ∀ ws, a.2.cell? e = some (.attempting ws) → ws.Nodup
  waiting : ∀ ws k, a.2.cell? e = some (.attempting ws) → k ∈ ws → a.1 ≠ some k ∧
    k ∉ a.2.ready ∧ ∃ x u, a.2.tasks.get? k = some x ∧ x.job = .resume u ∧ u.engine = e

/-- **One attempt at a time.** -/
structure InTurn (a : Option TaskId × World) : Prop where
  wakeful : a.2.Wakeful
  nodup : a.2.ready.Nodup
  bounded : ∀ k ∈ a.2.ready, k < a.2.tasks.next
  running : ∀ k x, a.1 = some k → a.2.tasks.get? k = some x → x.job.mayWait = true →
    k ∉ a.2.ready
  orderly : ∀ e, Orderly a e

namespace InTurn

variable {w : World} {a b : Option TaskId × World} {e : EngineId} {k : TaskId} {ws : List TaskId}

/-- A task of which the engine's cell says that it waits does not become ready in a move, unless it
waits for the attempt that ends. -/
theorem not_ready (h : InTurn a) (hm : Move a b) (tidy : a.2.Tidy) {x : Task}
    (task : a.2.tasks.get? k = some x) (mayWait : x.job.mayWait = true) (asleep : k ∉ a.2.ready)
    (others : ¬Awaits a b k) : k ∉ b.2.ready := by
  intro ready
  rcases (hm.queue h.wakeful h.bounded).mem ready with old | ⟨new, -⟩ | ⟨-, never⟩ | awaits
  · exact asleep old
  · exact absurd (tidy.tasks.lt task) (Nat.not_lt.mpr new)
  · have never := never x task
    dsimp only at never
    rw [mayWait] at never
    cases never
  · exact others awaits

theorem engine_of_awaits (h : InTurn a) (hw : a.2.cell? e = some (.attempting ws)) (hk : k ∈ ws)
    (awaits : Awaits a b k) : ∃ (w : World) (t : TaskId) (r : Registration) (u : Use),
      a = (some t, w.park t (.register r.owner r.source r.sink r.listener (.use u))) ∧
        u.engine = e ∧ (ws.head? = some k ∧ b.2.cell? e = some (.attempting ws.tail) ∨
          b.2.cell? e = some .registered) := by
  obtain ⟨w, t, r, u, ws', ha, hw', hk', first⟩ := awaits
  have cell : a.2.cell? u.engine = w.cell? u.engine := by
    rw [ha]
    exact cell?_congr (park_seat? ..)
  obtain ⟨-, -, x, u₁, task, job, own⟩ := (h.orderly e).waiting ws k hw hk
  obtain ⟨-, -, x', u₂, task', job', own'⟩ := (h.orderly _).waiting ws' k (cell.trans hw') hk'
  rw [task] at task'
  cases task'
  rw [job] at job'
  cases job'
  have he : u.engine = e := own'.symm.trans own
  subst he
  rw [cell, hw'] at hw
  cases hw
  exact ⟨w, t, r, u, ha, rfl, first⟩

/-- A task that waits goes on waiting through a move that leaves the cell alone. -/
theorem waits_on (h : InTurn a) (hm : Move a b) (tidy : a.2.Tidy)
    (hw : a.2.cell? e = some (.attempting ws)) (hk : k ∈ ws) (others : ¬Awaits a b k) :
    b.1 ≠ some k ∧ k ∉ b.2.ready ∧
      ∃ x u, b.2.tasks.get? k = some x ∧ x.job = .resume u ∧ u.engine = e := by
  obtain ⟨idle, asleep, x, u, task, job, own⟩ := (h.orderly e).waiting ws k hw hk
  refine ⟨fun runs => idle (hm.ran runs),
    h.not_ready hm tidy task (by rw [job]; rfl) asleep others, ?_⟩
  rcases hm.stays tidy task idle with same | ⟨cancelled, -⟩
  · exact ⟨x, u, same, job, own⟩
  · exact ⟨_, u, cancelled, job, own⟩

theorem quiet (h : InTurn a) (hm : Move a b) (tidy : a.2.Tidy) (same : b.2.cell? e = a.2.cell? e) :
    Orderly b e := by
  have before : ∀ k, b.2.Tries e k → a.2.Tries e k := by
    intro k hx
    obtain ⟨x, u, task, attempts, own⟩ := hx
    rcases hm.tries tidy task attempts with ⟨y, hy, tried, -⟩ | ⟨changed, -⟩
    · exact ⟨y, u, hy, tried, own⟩
    · exact absurd (own ▸ same) changed
  have old := h.orderly e
  refine ⟨fun k x u task registers own => ?_, fun k tries => ?_, fun ws k k' hw hk hk' => ?_,
    fun ws hw => old.nodup ws (same ▸ hw), fun ws k hw hk => ?_⟩
  · rw [same]
    rcases hm.tries tidy task (Job.attempts_of_registers registers) with
      ⟨y, hy, tried, registered⟩ | ⟨changed, -⟩
    · rcases registered registers with registered | unregistered
      · exact old.registering k y u hy registered own
      · exact (old.trying k ⟨y, u, hy, tried, own⟩).resolve_left (own ▸ unregistered)
    · exact absurd (own ▸ same) changed
  · rw [same]
    exact old.trying k (before k tries)
  · exact old.sole ws k k' (same ▸ hw) (before k hk) (before k' hk')
  · rw [same] at hw
    refine h.waits_on hm tidy hw hk fun awaits => ?_
    -- an attempt that ends would have changed the cell
    obtain ⟨-, -, -, -, -, -, ⟨head, tail⟩ | registered⟩ := h.engine_of_awaits hw hk awaits
    · rw [same, hw] at tail
      cases ws with
      | nil => cases hk
      | cons k rest => simp at tail
    · rw [same, hw] at registered
      cases registered

/-- Who tries in a cell that has just been handed on has tried before, and is not the task whose
attempt has ended. -/
theorem tried_before (hm : Move a b) (tidy : a.2.Tidy) {w : World} {t : TaskId} {j : Job}
    (ha : a = (some t, w.park t j)) (other : ∀ u, j ≠ .prepare u) (tries : b.2.Tries e k) :
    a.2.Tries e k := by
  obtain ⟨x, u, task, attempts, own⟩ := tries
  rcases hm.tries tidy task attempts with ⟨y, hy, tried, -⟩ | ⟨-, w', ha'⟩
  · exact ⟨y, u, hy, tried, own⟩
  · rw [ha] at ha'
    exact absurd (running_inj ha').2 (other u)

/-- An attempt that ends hands an orderly cell on. -/
theorem ended (h : InTurn a) (hm : Move a b) (tidy : a.2.Tidy) {w : World} {t : TaskId}
    {r : Registration} {u : Use}
    (ha : a = (some t, w.park t (.register r.owner r.source r.sink r.listener (.use u))))
    (own : u.engine = e) (ends : ¬b.2.Tries e t) (hw : a.2.cell? e = some (.attempting ws))
    (next : b.2.cell? e = some .registered ∨ ws = [] ∧ b.2.cell? e = some .vacant ∨
      ∃ k rest, ws = k :: rest ∧ b.2.cell? e = some (.attempting rest)) : Orderly b e := by
  have old := h.orderly e
  have running : a.2.tasks.get? t =
      some ⟨.register r.owner r.source r.sink r.listener (.use u), false⟩ := by rw [ha]; simp
  have idle : t ∉ ws := fun ht => (old.waiting ws t hw ht).1 (by rw [ha])
  have before : ∀ k, b.2.Tries e k → a.2.Tries e k ∧ k ≠ t := fun k hk =>
    ⟨tried_before hm tidy ha (by simp) hk, fun he => ends (he ▸ hk)⟩
  -- whoever still tries had to wait for the attempt that has ended
  have waited : ∀ k, b.2.Tries e k → k ∈ ws := by
    intro k hk
    obtain ⟨tried, hkt⟩ := before k hk
    by_contra hkw
    exact hkt (old.sole ws k t hw tried ⟨_, u, running, rfl, own⟩ hkw idle)
  have registers : ∀ k x u', b.2.tasks.get? k = some x → x.job.registers? = some u' →
      u'.engine ≠ e := by
    intro k x u' task registers own'
    have hk := waited k ⟨x, u', task, Job.attempts_of_registers registers, own'⟩
    obtain ⟨idle', -, y, u'', hy, job, -⟩ := old.waiting ws k hw hk
    have same : x.job = .resume u'' := by
      rcases hm.stays tidy hy idle' with same | ⟨cancelled, -⟩
      · rw [task] at same
        cases same
        exact job
      · rw [task] at cancelled
        cases cancelled
        exact job
    rw [same] at registers
    cases registers
  rcases next with registered | ⟨rfl, vacant⟩ | ⟨k₀, rest, rfl, next⟩
  · exact ⟨fun k x u' task hr own' => absurd own' (registers k x u' task hr),
      fun _ _ => .inl registered, by simp [registered], by simp [registered], by simp [registered]⟩
  · refine ⟨fun k x u' task hr own' => absurd own' (registers k x u' task hr), fun k hk => ?_,
      by simp [vacant], by simp [vacant], by simp [vacant]⟩
    exact absurd (waited k hk) (by simp)
  · obtain ⟨first, nodup⟩ := List.nodup_cons.mp (old.nodup _ hw)
    have cell : ∀ ws, b.2.cell? e = some (.attempting ws) → ws = rest := by
      intro ws hws
      rw [next] at hws
      cases hws
      rfl
    refine ⟨fun k x u' task hr own' => absurd own' (registers k x u' task hr),
      fun _ _ => .inr ⟨rest, next⟩, fun ws k k' hws hk hk' hkw hkw' => ?_,
      fun ws hws => cell ws hws ▸ nodup, fun ws k hws hk => ?_⟩
    · -- only the first of those who waited tries now
      rw [cell ws hws] at hkw hkw'
      have hk₀ := (List.mem_cons.mp (waited k hk)).resolve_right hkw
      have hk₀' := (List.mem_cons.mp (waited k' hk')).resolve_right hkw'
      rw [hk₀, hk₀']
    · rw [cell ws hws] at hk
      refine h.waits_on hm tidy hw (List.mem_cons_of_mem _ hk) fun awaits => ?_
      obtain ⟨-, -, -, -, -, -, ⟨head, -⟩ | registered⟩ :=
        h.engine_of_awaits hw (List.mem_cons_of_mem _ hk) awaits
      · cases head
        exact first hk
      · rw [next] at registered
        cases registered

/-- Every move keeps a cell orderly. -/
theorem orderly_move (h : InTurn a) (hm : Move a b) (tidy : a.2.Tidy) (e : EngineId) :
    Orderly b e := by
  have old := h.orderly e
  have mine : ∀ {w : World} {t : TaskId} {u : Use}, a = (some t, w.park t (.prepare u)) →
      ∀ {k : TaskId} {x : Task} {u' : Use}, b.2.tasks.get? k = some x →
        x.job.attempts? = some u' → k = t ∨ ∃ y, a.2.tasks.get? k = some y ∧
          y.job.attempts? = some u' ∧ (x.job.registers? = some u' → y.job.registers? = some u' ∨
            a.2.cell? u'.engine ≠ some .registered) := by
    intro w t u ha k x u' task attempts
    rcases hm.tries tidy task attempts with before | ⟨-, w', ha'⟩
    · exact .inr before
    · rw [ha] at ha'
      exact .inl (running_inj ha').1.symm
  rcases hm.cell e with same | turns
  · exact h.quiet hm tidy same
  cases turns with
  | claimed w t u ha own vacant next =>
    have nobody : ∀ k, ¬a.2.Tries e k := by
      intro k hk
      rcases old.trying k hk with registered | ⟨ws, attempting⟩
      · rw [vacant] at registered
        cases registered
      · rw [vacant] at attempting
        cases attempting
    have only : ∀ k, b.2.Tries e k → k = t := by
      intro k hk
      obtain ⟨x, u', task, attempts, own'⟩ := hk
      rcases mine ha task attempts with hkt | ⟨y, hy, tried, -⟩
      · exact hkt
      · exact absurd ⟨y, u', hy, tried, own'⟩ (nobody k)
    refine ⟨fun _ _ _ _ _ _ => ⟨[], next⟩, fun _ _ => .inr ⟨[], next⟩,
      fun ws k k' _ hk hk' _ _ => (only k hk).trans (only k' hk').symm, fun ws hws => ?_,
      fun ws k hws hk => ?_⟩
    · rw [next] at hws
      cases hws
      exact List.nodup_nil
    · rw [next] at hws
      cases hws
      cases hk
  | queued w t u ws ha own idle task ready before next =>
    have running : a.2.tasks.get? t = some ⟨.prepare u, false⟩ := by rw [ha]; simp
    have cell : ∀ ws', b.2.cell? e = some (.attempting ws') → ws' = ws ++ [t] := by
      intro ws' hws
      rw [next] at hws
      cases hws
      rfl
    refine ⟨fun _ _ _ _ _ _ => ⟨_, next⟩, fun _ _ => .inr ⟨_, next⟩,
      fun ws' k k' hws hk hk' hkw hkw' => ?_, fun ws' hws => ?_, fun ws' k hws hk => ?_⟩
    · have earlier : ∀ k, b.2.Tries e k → k ∉ ws' → a.2.Tries e k ∧ k ∉ ws := by
        intro k hk hkw
        rw [cell ws' hws, List.mem_append, not_or, List.mem_singleton] at hkw
        obtain ⟨x, u', hx, attempts, own'⟩ := hk
        rcases mine ha hx attempts with hkt | ⟨y, hy, tried, -⟩
        · exact absurd hkt hkw.2
        · exact ⟨⟨y, u', hy, tried, own'⟩, hkw.1⟩
      obtain ⟨hk, hkw⟩ := earlier k hk hkw
      obtain ⟨hk', hkw'⟩ := earlier k' hk' hkw'
      exact old.sole ws k k' before hk hk' hkw hkw'
    · rw [cell ws' hws]
      refine List.nodup_append.mpr ⟨old.nodup ws before, by simp, fun x hx y hy he => ?_⟩
      have hxt : x = t := he.trans (List.mem_singleton.mp hy)
      exact (old.waiting ws x before hx).1 (by rw [ha, hxt])
    · rw [cell ws' hws, List.mem_append, List.mem_singleton] at hk
      rcases hk with hk | rfl
      · refine h.waits_on hm tidy before hk fun awaits => ?_
        obtain ⟨w', t', r, u', ha', -⟩ := h.engine_of_awaits before hk awaits
        rw [ha] at ha'
        exact absurd (running_inj ha').2 (by simp)
      · refine ⟨by simp [idle], ?_, _, u, task, rfl, own⟩
        rw [ready]
        exact h.running k _ (by rw [ha]) running rfl
  | ended w t r u ws ha own ends before next => exact h.ended hm tidy ha own ends before next

theorem move (hm : Move a b) (tidy : a.2.Tidy) (h : InTurn a) : InTurn b := by
  have queue := hm.queue h.wakeful h.bounded
  refine ⟨h.wakeful.move hm tidy, queue.nodup h.nodup, fun k hk => ?_,
    fun k x runs task mayWait => ?_, h.orderly_move hm tidy⟩
  · rcases queue.mem hk with old | ⟨-, lt⟩ | ⟨lt, -⟩ | ⟨w, t, r, u, ws, ha, hw, hkw, -⟩
    · exact Nat.lt_of_lt_of_le (h.bounded k old) (hm.next_le tidy)
    · exact lt
    · exact Nat.lt_of_lt_of_le lt (hm.next_le tidy)
    · have cell : a.2.cell? u.engine = some (.attempting ws) := by
        rw [ha]
        exact (cell?_congr (park_seat? ..)).trans hw
      obtain ⟨-, -, x, -, task, -⟩ := (h.orderly _).waiting ws k cell hkw
      exact Nat.lt_of_lt_of_le (tidy.tasks.lt task) (hm.next_le tidy)
  · -- the running task has been waiting for nothing
    have ran := hm.ran runs
    obtain ⟨w, j, ha, leads, -⟩ := hm.goes runs task
    have before : j.mayWait = true := by
      by_contra never
      rw [leads.mayWait (by simpa using never)] at mayWait
      cases mayWait
    have task' : a.2.tasks.get? k = some ⟨j, false⟩ := by rw [ha]; simp
    refine h.not_ready hm tidy task' before (h.running k _ ran task' before) fun awaits => ?_
    obtain ⟨w', t, r, u, ws, ha', -⟩ := awaits
    rw [ha] at ha'
    rw [(running_inj ha').2] at before
    cases before

theorem outset {a : Act} {b : Option TaskId × World} (ho : Outset w a b) (tidy : w.Tidy)
    (h : InTurn (none, w)) : InTurn b := by
  obtain ⟨taken, q, sub, joins⟩ := ho.queue h.wakeful h.nodup h.bounded
  refine ⟨h.wakeful.outset ho tidy, joins.nodup (h.nodup.sublist sub), fun k hk => ?_,
    fun k x runs _ _ => taken k runs, fun e => ?_⟩
  · rcases joins.mem hk with old | ⟨-, lt⟩ | ⟨lt, -⟩
    · exact Nat.lt_of_lt_of_le (h.bounded k (sub.subset old)) ho.next_le
    · exact lt
    · exact Nat.lt_of_lt_of_le lt ho.next_le
  · have old := h.orderly e
    have tried : ∀ {k : TaskId} {x : Task} {u : Use}, b.2.tasks.get? k = some x →
        x.job.attempts? = some u → w.tasks.get? k = some x := by
      intro k x u task attempts
      rcases ho.lineage task with same | ⟨-, begins, -⟩
      · exact same
      · rw [Job.attempts_of_begins begins] at attempts
        cases attempts
    have before : ∀ k, b.2.Tries e k → w.Tries e k := by
      intro k hx
      obtain ⟨x, u, task, attempts, own⟩ := hx
      exact ⟨x, u, tried task attempts, attempts, own⟩
    rcases ho.cell tidy e with same | ⟨none, vacant⟩
    · refine ⟨fun k x u task registers own => ?_, fun k hk => same ▸ old.trying k (before k hk),
        fun ws k k' hw hk hk' => old.sole ws k k' (same ▸ hw) (before k hk) (before k' hk'),
        fun ws hw => old.nodup ws (same ▸ hw), fun ws k hw hk => ?_⟩
      · rw [same]
        exact old.registering k x u (tried task (Job.attempts_of_registers registers)) registers own
      · obtain ⟨-, asleep, x, u, task, job, own⟩ := old.waiting ws k (same ▸ hw) hk
        have lt : k < w.tasks.next := tidy.tasks.lt task
        refine ⟨fun runs => ?_, fun ready => ?_, x, u, ho.keeps_task tidy task asleep, job, own⟩
        · rcases ho.running runs with ready | new
          · exact asleep ready
          · exact absurd lt (Nat.not_lt.mpr new)
        · rcases joins.mem ready with hq | ⟨new, -⟩ | ⟨-, never⟩
          · exact asleep (sub.subset hq)
          · exact absurd lt (Nat.not_lt.mpr new)
          · have never := never x task
            rw [job] at never
            cases never
    · -- nobody has asked for the listener of a new engine
      have nobody : ∀ k, ¬b.2.Tries e k := by
        intro k hk
        rcases old.trying k (before k hk) with registered | ⟨ws, attempting⟩
        · exact absurd (none.symm.trans registered) (by simp)
        · exact absurd (none.symm.trans attempting) (by simp)
      refine ⟨fun k x u task registers own => ?_, fun k hk => absurd hk (nobody k),
        by simp [vacant], by simp [vacant], by simp [vacant]⟩
      exact absurd ⟨x, u, task, Job.attempts_of_registers registers, own⟩ (nobody k)

theorem new (h : w.IsNew) : InTurn (none, w) := by
  have wakeful := Wakeful.new h
  obtain ⟨wall, ids, rfl⟩ := h
  have nobody : ∀ e k, ¬World.Tries { wall := wall, ids := ids } e k := by
    intro e k hx
    obtain ⟨x, u, task, -⟩ := hx
    cases task
  refine ⟨wakeful, List.nodup_nil, by simp, by simp, fun e => ⟨?_, fun k hk => ?_, ?_, ?_, ?_⟩⟩
  · intro k x u task
    cases task
  · exact absurd hk (nobody e k)
  · exact fun _ k _ _ hk => absurd hk (nobody e k)
  · intro ws hw
    cases e <;> cases hw
  · intro ws k hw
    cases e <;> cases hw

theorem kept : Kept (fun _ _ => True) InTurn :=
  ⟨fun tidy ho _ h => h.outset ho tidy, fun tidy hm h => h.move hm tidy⟩

theorem settled (h : InTurn a) (registered : a.2.cell? e = some .registered) {x : Task} {u : Use}
    (task : a.2.tasks.get? k = some x) (registers : x.job.registers? = some u) : u.engine ≠ e := by
  intro own
  obtain ⟨ws, attempting⟩ := (h.orderly e).registering k x u task registers own
  rw [registered] at attempting
  cases attempting

end InTurn

end World

open World in
/-- A listener that is registered once is so for good. -/
theorem Move.registered {a b : Option TaskId × World} (hm : Move a b) {e : EngineId}
    (h : a.2.cell? e = some .registered) : b.2.cell? e = some .registered := by
  rcases hm.cell e with same | turns
  · rw [same, h]
  · cases turns with
    | claimed w t u ha own before after => exact absurd (h.symm.trans before) (by simp)
    | queued w t u ws ha own idle task ready before after =>
      exact absurd (h.symm.trans before) (by simp)
    | ended w t r u ws ha own ends before after => exact absurd (h.symm.trans before) (by simp)

theorem Outset.registered {w : World} {a : Act} {b : Option TaskId × World} (ho : Outset w a b)
    (tidy : w.Tidy) {e : EngineId} (h : w.cell? e = some .registered) :
    b.2.cell? e = some .registered := by
  rcases ho.cell tidy e with same | ⟨none, -⟩
  · rw [same, h]
  · rw [none] at h
    cases h

end Switchboard
