import Mathlib.Data.List.Nodup
import Switchboard.Proofs.Attempts

/-! # Who keeps an engine

An engine is kept by those outside that own it and by the tasks that hold it. When the last owner or
the last task lets it go, it goes away, and never comes back: what is gone is owned by nobody and
held by no task (`Forsaken.kept`). As long as nobody closes engines, a task holds its engine until
it has ended, so the other way round what is left alone is gone (`Tended.act`).
-/

namespace Switchboard

open World

namespace Table

variable {α : Type u} {t : Table α} {k : Nat} {a : α}

def Sole (t : Table α) : Prop := (t.entries.map (·.1)).Nodup

theorem notMem_of_get? (free : t.get? k = none) : k ∉ t.entries.map (·.1) := by
  intro hk
  obtain ⟨⟨j, a⟩, mem, rfl⟩ := List.mem_map.mp hk
  have found : t.get? j ≠ none := by
    rw [get?, ne_eq, List.lookup_eq_none_iff]
    exact fun none => by simpa using none _ mem
  exact found free

theorem Sole.get? (h : t.Sole) (mem : (k, a) ∈ t.entries) : t.get? k = some a := by
  cases found : t.get? k with
  | none => exact absurd (List.mem_map_of_mem mem) (notMem_of_get? found)
  | some b =>
    have same := List.inj_on_of_nodup_map h (mem_of_get? found) mem rfl
    rw [(Prod.mk.inj same).2]

theorem Sole.exists_of_any (h : t.Sole) {p : α → Bool} (some : t.any p = true) :
    ∃ k a, t.get? k = .some a ∧ p a = true := by
  obtain ⟨⟨k, a⟩, mem, ha⟩ := List.any_eq_true.mp some
  exact ⟨k, a, h.get? mem, ha⟩

theorem Sole.erase (h : t.Sole) (k : Nat) : (t.erase k).Sole :=
  h.sublist (List.Sublist.map _ List.filter_sublist)

theorem Sole.set (h : t.Sole) (k : Nat) (a : α) : (t.set k a).Sole := by
  refine List.nodup_cons.mpr ⟨notMem_of_get? ?_, h.erase k⟩
  simp

theorem Sole.insert (h : t.Sole) (fresh : t.Fresh) (a : α) : (t.insert a).2.Sole :=
  List.nodup_cons.mpr ⟨notMem_of_get? fresh.next, h⟩

/-- Without the entry that was put under a free key there is no other one under it. -/
theorem Sole.unset (h : (t.set k a).Sole) (free : t.get? k = none) : t.Sole := by
  have all : (t.erase k).entries = t.entries := by
    refine List.filter_eq_self.mpr fun e he => ?_
    have other : e.1 ≠ k := fun same => notMem_of_get? free (same ▸ List.mem_map_of_mem he)
    simpa using other
  have rest := (List.nodup_cons.mp h).2
  rwa [all] at rest

theorem sole_empty : ({} : Table α).Sole := List.nodup_nil

end Table

namespace World

variable {w v : World} {a b : Option TaskId × World} {t k : TaskId} {e : EngineId}

theorem sole_complete (h : w.tasks.Sole) (i : CallerId) (id : MessageId) (cause : Cause) :
    (w.complete i id cause).tasks.Sole := by
  cases hp : (w.callers.get? i).bind (·.pending? id) with
  | none => simpa [complete_of_none hp] using h
  | some p =>
    simp only [complete_of_some hp, resolve_keeps]
    unfold cancel
    split
    · simpa using h
    · simpa using h.set _ _

theorem sole_invoke (h : w.tasks.Sole) (tidy : w.Tidy) (i : CallerId) (method : Address)
    (payload : Option Payload) (options : CallOptions) :
    (w.invoke i method payload options).2.tasks.Sole := by
  rcases invoke_cases w i method payload options with
    ⟨e, he⟩ | ⟨e, he⟩ | ⟨c, m, -, -, -, -, he⟩ <;> rw [he]
  · exact h
  · exact h
  · exact (h.insert tidy.tasks _).insert (tidy.tasks.insert _) _

theorem sole_broadcast (h : w.tasks.Sole) (tidy : w.Tidy) (m : Message) :
    (w.broadcast m).tasks.Sole := by
  unfold broadcast
  generalize w.hub.recipients m = ls
  induction ls generalizing w with
  | nil => exact h
  | cons l ls ih => exact ih (h.insert tidy.tasks _) (tidy.spawn _)

theorem sole_move (hm : Move a b) (tidy : a.2.Tidy) (h : a.2.tasks.Sole) : b.2.tasks.Sole := by
  cases hm with
  | @remove w e p side seat unowned alive unheld =>
    rcases remove_tasks w e p side with ⟨-, -, -, tasks⟩ | tasks <;> rw [tasks]
    · exact h.insert tidy.tasks _
    · exact h
  | @pass w t j es next free passes =>
    have rest : w.tasks.Sole := Table.Sole.unset h free
    cases next with
    | none => simpa using rest
    | some j' => simpa using rest.set t _
  | @enrol w t r u hub free registration =>
    have rest : w.tasks.Sole := Table.Sole.unset h free
    cases goes : (w.onward t u).2 with
    | none => simpa [goes] using rest
    | some j' => simpa [goes] using rest.set t _
  | @expire w t i id timeout free => exact sole_complete (Table.Sole.unset h free) ..
  | @answered w t i c m id free caller alive answers =>
    rw [recordAll_tasks]
    exact sole_complete (w := w.record _) (Table.Sole.unset h free) ..
  | @failRequest w t r i id m s free refusal =>
    refine sole_complete ?_ ..
    simpa using Table.Sole.unset h free
  | @refuse w t l m i id s free refusal => exact sole_complete (Table.Sole.unset h free) ..
  | @broadcast w t l m after free accepted =>
    simpa using sole_broadcast (Table.Sole.unset h free) tidy.unpark m
  | @call w v t i method payload options accepted free invoked =>
    have hv : v = (w.invoke i method payload options).2 := by rw [invoked]
    subst hv
    exact (sole_invoke (Table.Sole.unset h free) tidy.unpark ..).set t _
  | @callRefused w v t i method payload options e free invoked =>
    have hv : v = (w.invoke i method payload options).2 := by rw [invoked]
    subst hv
    exact sole_invoke (Table.Sole.unset h free) tidy.unpark ..
  | _ =>
    -- the running task is put back, or has ended
    have rest := Table.Sole.unset h (by assumption)
    first
      | simpa using rest
      | simpa using rest.set _ _

theorem sole_outset {a : Act} (ho : Outset w a b) (tidy : w.Tidy) (h : w.tasks.Sole) :
    b.2.tasks.Sole := by
  cases ho with
  | take t j ready task => exact (h.erase t).set t _
  | discard t j ready task => exact h.erase t
  | enter o allowed => exact Table.Sole.set h _ _
  | spawn o allowed => exact h.insert tidy.tasks _
  | inbound l m => exact h.insert tidy.tasks _
  | invoke i method payload options owned => exact sole_invoke h tidy ..
  | fire due next => simpa [World.fire] using h
  | hold e owned => simpa [World.hold] using h
  | drop e side owned => simpa using h
  | _ => exact h

/-- **No two tasks have one key.** -/
theorem sole_kept : Kept (fun _ _ => True) fun a => a.2.tasks.Sole :=
  ⟨fun tidy ho _ h => sole_outset ho tidy h, fun tidy hm h => sole_move hm tidy h⟩

/-! ## Tasks that hold an engine -/

def Held (w : World) (e : EngineId) : Prop := ∃ j, w.HasJob j ∧ j.holds = some e

theorem Held.isHeld (h : w.Held e) : w.isHeld e = true := by
  obtain ⟨j, ⟨k, x, task, rfl⟩, holds⟩ := h
  exact Table.any_of_get? task (by simp [holds])

theorem held_of_isHeld (sole : w.tasks.Sole) (h : w.isHeld e = true) : w.Held e := by
  obtain ⟨k, x, task, holds⟩ := sole.exists_of_any h
  exact ⟨x.job, ⟨k, x, task, rfl⟩, by simpa using holds⟩

theorem seat_of_owned (owned : w.isOwned e = true) : ∃ p, w.seat? e = some p ∧ 0 < p.handles := by
  obtain ⟨p, seat, handles⟩ := Option.any_eq_true _ _ |>.mp owned
  exact ⟨p, seat, by simpa using handles⟩

end World

theorem Job.holds_of_use {j : Job} {u : Use} (h : j.use? = some u) : j.holds = some u.engine := by
  cases j with
  | prepare u' => cases h; rfl
  | resume u' => cases h; rfl
  | register l source sink listener after =>
    cases after with
    | use u' => cases h; rfl
    | report r => cases h
  | _ => cases h

/-- A task that comes to hold an engine held it before, or the engine is there. -/
theorem Leads.held_before {w : World} {t : TaskId} {j j' : Job} {e : EngineId} (h : Leads w t j j')
    (holds : j'.holds = some e) :
    j.holds = some e ∨ ∃ p, w.seat? e = some p ∧ p.gone = false := by
  cases h with
  | served s v hd m server alive judged =>
    cases holds
    exact .inr ⟨v.seat, by simp [seat?, server], alive⟩
  | request j i c id m use caller listening =>
    exact .inl ((Job.holds_of_use use).trans holds)
  | attempt j u p use seat => exact .inl ((Job.holds_of_use use).trans holds)
  | reply s v m a j es draft payload server replies finish =>
    cases holds
    cases replies with
    | ended hd => exact .inl rfl
    | unserved v' draft server' alive judged =>
      exact .inr ⟨v'.seat, by simp [seat?, server'], alive⟩
  | wait u => exact .inl holds
  | arm i id timeout => exact .inl holds
  | addHandler s v method hd server vacant => exact .inl holds
  | await i method payload options k => exact .inl holds
  | deadline i method payload options => exact .inl holds
  | call i c method payload options m caller finish minted => exact .inl holds
  | _ => cases holds

def Job.closes : Job → Bool
  | .start (.close _) => true
  | _ => false

theorem Leads.closes {w : World} {t : TaskId} {j j' : Job} (h : Leads w t j j') :
    j'.closes = false := by
  cases h <;> rfl

/-- A task goes on holding its engine, unless it closes one. -/
theorem Leads.holds {w : World} {t : TaskId} {j j' : Job} {e : EngineId} (h : Leads w t j j')
    (other : ∀ l m, j' ≠ .deliver l m) (holds : j.holds = some e) (opened : j.closes = false) :
    j'.holds = some e := by
  cases h with
  | request j i c id m use caller listening => exact (Job.holds_of_use use).symm.trans holds
  | attempt j u p use seat => exact (Job.holds_of_use use).symm.trans holds
  | reply s v m a j es draft payload server replies finish =>
    cases replies with
    | ended hd => exact holds
    | unserved v' draft server' alive judged => cases holds
  | wait u => exact holds
  | arm i id timeout => exact holds
  | addHandler s v method hd server vacant => exact holds
  | await i method payload options k => exact holds
  | deadline i method payload options => exact holds
  | call i c method payload options m caller finish minted => exact holds
  | close e' p seat opened' registered => cases opened
  | broadcast l m after listener accepted recipient => exact absurd rfl (other _ _)
  | post o l resource draft payload options topic m posting finish =>
    cases o <;> simp_all [Operation.posting?, Job.holds, Operation.engine?]
  | _ => cases holds

/-- At the outset of an act an engine is held that was held before, or has an owner. -/
theorem Outset.holds {w : World} {a : Act} {b : Option TaskId × World} (ho : Outset w a b) {j : Job}
    {e : EngineId} (hj : b.2.HasJob j) (holds : j.holds = some e) :
    w.HasJob j ∨ w.isOwned e = true := by
  have allowed_starts : ∀ {o : Operation}, (∀ e, o.engine? = some e → w.isOwned e = true) →
      j = .start o ∨ w.HasJob j → w.HasJob j ∨ w.isOwned e = true := by
    intro o owned new
    rcases new with rfl | old
    · exact .inr (owned e holds)
    · exact .inl old
  cases ho with
  | take t j' ready task =>
    rcases hj.of_set (w := w.without t) (t := t) rfl with rfl | old
    · exact .inl ⟨t, _, task, rfl⟩
    · obtain ⟨k, x, hk, rfl⟩ := old
      simp only [without_keeps, Table.get?_erase] at hk
      split at hk
      · cases hk
      · exact .inl ⟨k, x, hk, rfl⟩
  | discard t j' ready task =>
    obtain ⟨k, x, hk, rfl⟩ := hj
    simp only [without_keeps, Table.get?_erase] at hk
    split at hk
    · cases hk
    · exact .inl ⟨k, x, hk, rfl⟩
  | enter o allowed =>
    refine allowed_starts (o := o) (fun e he => ?_)
      (hj.of_set (w := { w with tasks := w.tasks.reserve.2 }) (t := w.tasks.next) rfl)
    simpa [Command.isAllowed, Command.engine?, he] using allowed
  | spawn o allowed =>
    refine allowed_starts (o := o) (fun e he => ?_) (hj.of_insert rfl)
    simpa [Command.isAllowed, Command.engine?, he] using allowed
  | inbound l m =>
    rcases hj.of_insert (w := w) rfl with rfl | old
    · cases holds
    · exact .inl old
  | invoke i method payload options owned =>
    rcases invoke_cases w i method payload options with
      ⟨f, he⟩ | ⟨f, he⟩ | ⟨c, m, -, -, -, -, he⟩ <;> rw [he] at hj
    · exact .inl hj
    · exact .inl (hj.of_same rfl)
    · rcases hj.of_accept with rfl | rfl | old
      · cases holds
        exact .inr owned
      · cases holds
        exact .inr owned
      · exact .inl (old.of_same rfl)
  | fire due next => exact .inl (hj.of_same (by simp [World.fire]))
  | hold e' owned => exact .inl (hj.of_same (by simp [World.hold]))
  | drop e' side owned => exact .inl (hj.of_same (by simp))
  | _ => exact .inl hj

namespace World

variable {w v : World} {a b : Option TaskId × World} {t k : TaskId} {e : EngineId}

/-- No task holds an engine that is gone. -/
def Forsaken (w : World) : Prop := ∀ e p, w.seat? e = some p → p.gone = true → ¬w.Held e

theorem Forsaken.move (hm : Move a b) (tidy : a.2.Tidy) (h : a.2.Forsaken) : b.2.Forsaken := by
  intro e q seat gone held
  obtain ⟨j, hj, holds⟩ := held
  obtain ⟨p, seat', moved⟩ := hm.seat seat
  -- before the move nobody held the engine, nor could anyone come to hold it
  have unheld : ¬a.2.Held e := by
    rcases moved.gone gone with before | ⟨-, -, unheld⟩
    · exact h e p seat' before
    · exact fun held => by rw [held.isHeld] at unheld; cases unheld
  rcases hm.leads tidy hj with old | ⟨w, t, j₀, rfl, leads⟩ | ⟨e', p', -, -, -, -, rfl⟩
  · exact unheld ⟨j, old, holds⟩
  · rcases leads.held_before holds with before | ⟨p', seat'', alive⟩
    · exact unheld ⟨j₀, hasJob_park w t j₀, before⟩
    · cases (park_seat? w t j₀ e ▸ seat').symm.trans seat''
      rcases moved.gone gone with before | ⟨-, idle, -⟩
      · rw [alive] at before
        cases before
      · cases idle
  · cases holds

theorem Forsaken.outset {act : Act} (ho : Outset w act b) (listening : w.Listening)
    (h : w.Forsaken) : b.2.Forsaken := by
  intro e q seat gone held
  obtain ⟨j, hj, holds⟩ := held
  rcases seat_of_outset ho seat with ⟨p, handles, seat', rfl, -⟩ | ⟨-, -, alive, -⟩
  · rcases ho.holds hj holds with old | owned
    · exact h e p seat' gone ⟨j, old, holds⟩
    · obtain ⟨p', seat'', handles⟩ := seat_of_owned owned
      cases seat'.symm.trans seat''
      have alive := listening.owned e p seat' handles
      rw [show p.gone = true from gone] at alive
      cases alive
  · rw [alive] at gone
    cases gone

theorem Forsaken.new (h : w.IsNew) : w.Forsaken := by
  obtain ⟨wall, ids, rfl⟩ := h
  intro e p seat
  cases e <;> cases seat

/-- **What is gone is held by nobody**, in every run. -/
theorem Forsaken.kept : Kept (fun _ _ => True) fun a => a.2.Listening ∧ a.2.Forsaken :=
  Listening.kept.add (fun _ ho _ before _ h => h.outset ho before)
    (fun tidy hm _ _ h => h.move hm tidy)

def Seated (w : World) : Prop := ∀ e, w.Held e → ∃ p, w.seat? e = some p

theorem Seated.move (hm : Move a b) (tidy : a.2.Tidy) (h : a.2.Seated) : b.2.Seated := by
  rintro e ⟨j, hj, holds⟩
  have before : ∃ p, a.2.seat? e = some p := by
    rcases hm.leads tidy hj with old | ⟨w, t, j₀, rfl, leads⟩ | ⟨e', p', -, -, -, -, rfl⟩
    · exact h e ⟨j, old, holds⟩
    · rcases leads.held_before holds with before | ⟨p, seat, -⟩
      · exact h e ⟨j₀, hasJob_park w t j₀, before⟩
      · exact ⟨p, seat⟩
    · cases holds
  obtain ⟨p, seat⟩ := before
  obtain ⟨q, seat', -⟩ := hm.grows.seats e p seat
  exact ⟨q, seat'⟩

theorem Seated.outset {act : Act} (ho : Outset w act b) (tidy : w.Tidy) (h : w.Seated) :
    b.2.Seated := by
  rintro e ⟨j, hj, holds⟩
  have before : ∃ p, w.seat? e = some p := by
    rcases ho.holds hj holds with old | owned
    · exact h e ⟨j, old, holds⟩
    · obtain ⟨p, seat, -⟩ := seat_of_owned owned
      exact ⟨p, seat⟩
  obtain ⟨p, seat⟩ := before
  obtain ⟨q, seat', -⟩ := (ho.grows tidy).seats e p seat
  exact ⟨q, seat'⟩

theorem Seated.new (h : w.IsNew) : w.Seated := by
  obtain ⟨wall, ids, rfl⟩ := h
  rintro e ⟨j, ⟨k, x, hk, -⟩, -⟩
  cases hk

theorem Seated.kept : Kept (fun _ _ => True) fun a => a.2.Seated :=
  ⟨fun tidy ho _ h => h.outset ho tidy, fun tidy hm h => h.move hm tidy⟩

/-! ## Engines that are left alone -/

def Tended (w : World) : Prop :=
  ∀ e p, w.seat? e = some p → p.gone = false → 0 < p.handles ∨ w.Held e

theorem Tended.new (h : w.IsNew) : w.Tended := by
  obtain ⟨wall, ids, rfl⟩ := h
  intro e p seat
  cases e <;> cases seat

end World

/-- The owners of an engine stay the same in a chain of moves. -/
theorem Moves.seat {a b : Option TaskId × World} (hm : Moves a b) {e : EngineId} {q : Seat}
    (seat : b.2.seat? e = some q) :
    ∃ p, a.2.seat? e = some p ∧ q.handles = p.handles ∧ (p.gone = true → q.gone = true) := by
  induction hm generalizing q with
  | refl => exact ⟨q, seat, rfl, id⟩
  | tail _ last ih =>
    obtain ⟨r, seat', moved⟩ := last.seat seat
    obtain ⟨p, seat'', handles, gone⟩ := ih seat'
    exact ⟨p, seat'', moved.handles.trans handles, fun h => moved.grows.gone (gone h)⟩

theorem Works.gone {a b : Option TaskId × World} (hm : Works a b) {e : EngineId} {q : Seat}
    (seat : b.2.seat? e = some q) : ∃ p, a.2.seat? e = some p ∧ p.gone = q.gone := by
  induction hm generalizing q with
  | refl => exact ⟨q, seat, rfl⟩
  | tail _ last ih =>
    obtain ⟨r, seat', moved⟩ := last.1.seat seat
    obtain ⟨p, seat'', same⟩ := ih seat'
    refine ⟨p, seat'', same.trans (Bool.eq_iff_iff.mpr ⟨moved.grows.gone, fun gone => ?_⟩)⟩
    rcases moved.gone gone with before | ⟨-, idle, -⟩
    · exact before
    · rw [idle] at last
      cases last.2

theorem Outset.unowned {w : World} {a : Act} {b : Option TaskId × World} (ho : Outset w a b)
    {e : EngineId} {q : Seat} (seat : b.2.seat? e = some q) (unowned : q.handles = 0) :
    (∃ p, w.seat? e = some p ∧ p.handles = 0 ∧ p.gone = q.gone) ∨
      ∃ side, a = .command (.drop e side) := by
  have same : b.2.seat? e = w.seat? e →
      ∃ p, w.seat? e = some p ∧ p.handles = 0 ∧ p.gone = q.gone :=
    fun seats => ⟨q, seats ▸ seat, unowned, rfl⟩
  cases ho with
  | addCaller l link reports linked =>
    cases e with
    | server s => exact .inl (same rfl)
    | caller i =>
      simp only [seat?, Table.get?_insert] at seat
      split at seat
      · cases seat
        cases unowned
      · exact .inl ⟨q, seat, unowned, rfl⟩
  | addServer l link linked =>
    cases e with
    | caller i => exact .inl (same rfl)
    | server s =>
      simp only [seat?, Table.get?_insert] at seat
      split at seat
      · cases seat
        cases unowned
      · exact .inl ⟨q, seat, unowned, rfl⟩
  | hold e' owned =>
    simp only [World.hold, modifySeat_seat?] at seat
    split at seat
    · obtain ⟨p, -, rfl⟩ := Option.map_eq_some_iff.mp seat
      cases unowned
    · exact .inl ⟨q, seat, unowned, rfl⟩
  | drop e' side owned =>
    simp only [modifySeat_seat?] at seat
    split at seat
    · rename_i he
      exact .inr ⟨side, by rw [he]⟩
    · exact .inl ⟨q, seat, unowned, rfl⟩
  | invoke i method payload options owned => exact .inl (same (invoke_seat? ..))
  | fire due next =>
    exact .inl (same (seat?_congr (by simp [World.fire]) (by simp [World.fire]) e))
  | unserve s v v' m h server unserved =>
    refine .inl (same (modifyServer_seat? _ _ (fun u hu => ?_) e))
    cases server.symm.trans hu
    exact unserve_seat unserved
  | _ => exact .inl (same rfl)

namespace World

variable {w : World} {t k : TaskId} {e : EngineId} {x : Task} {q : Seat}

/-- A task that does not take its turn has its job after an act. -/
theorem act_stays (tidy : w.Tidy) {a : Act} (possible : a.IsPossible w)
    (task : w.tasks.get? k = some x) (other : a ≠ .turn k) :
    ∃ y, (w.act a).tasks.get? k = some y ∧ y.job = x.job := by
  obtain ⟨b, ho, hm⟩ := act_moves tidy.tasks possible
  suffices ∀ c, Moves b c → c.2.Tidy ∧ c.1 ≠ some k ∧
      ∃ y, c.2.tasks.get? k = some y ∧ y.job = x.job from (this _ hm).2.2
  intro c hc
  induction hc with
  | refl =>
    exact ⟨tidy.outset ho, fun runs => other (ho.turn tidy task runs), x,
      ho.keeps_other tidy task other, rfl⟩
  | tail _ last ih =>
    obtain ⟨tidy, idle, y, task, job⟩ := ih
    refine ⟨tidy.move last, fun goes => idle (last.ran goes), ?_⟩
    rcases last.stays tidy task idle with same | ⟨cancelled, -⟩
    · exact ⟨y, same, job⟩
    · exact ⟨_, cancelled, job⟩

/-- Once an engine has been let go, it is gone, or somebody still keeps it. -/
theorem release_tends {side : Side} (sole : w.tasks.Sole)
    (seat : (w.release e side).seat? e = some q) (alive : q.gone = false) :
    0 < q.handles ∨ (w.release e side).Held e := by
  cases before : w.seat? e with
  | none => simp [release, before] at seat
  | some p =>
    by_cases kept : (decide (0 < p.handles) || p.gone || w.isHeld e) = true
    · have same : w.release e side = w := by simp only [release, before, kept, if_true]
      rw [same] at seat ⊢
      cases before.symm.trans seat
      simp only [alive, Bool.or_false, Bool.or_eq_true, decide_eq_true_eq] at kept
      exact kept.imp_right (held_of_isHeld sole)
    · have removed : w.release e side = w.remove e p side := by
        simp only [release, before, kept]
        rfl
      rw [removed, remove_seat?, if_pos rfl, before] at seat
      cases seat
      cases alive

/-- At the end of its turn a task still holds its engine, or has let it go. -/
theorem run_tends (tidy : w.Tidy) (sole : w.tasks.Sole) (task : w.tasks.get? k = some x)
    (holds : x.job.holds = some e) (opened : x.job.closes = false)
    (seat : (w.run k).seat? e = some q) (alive : q.gone = false) :
    0 < q.handles ∨ (w.run k).Held e := by
  have turn : ∃ u : World, w.run k = u.releaseAfter k (some e) ∧ u.tasks.Sole ∧
      u.KeepsTo (fun j => j.holds = some e ∧ j.closes = false) k := by
    have lt : k < w.tasks.next := tidy.tasks.lt task
    obtain ⟨j, cancelled⟩ := x
    cases cancelled with
    | true =>
      refine ⟨w.without k, by simp [run, task, without, holds], sole.erase k, lt, fun y hy => ?_⟩
      simp at hy
    | false =>
      have kept : Kept (fun _ _ => True) fun a => a.2.tasks.Sole ∧
          a.2.KeepsTo (fun j => j.holds = some e ∧ j.closes = false) k :=
        sole_kept.add (fun _ ho _ _ _ h => h.outset ho) fun tidy hm _ _ h =>
          h.move hm tidy fun _ _ _ _ leads other before =>
            ⟨leads.holds other before.1 before.2, leads.closes⟩
      have parked : ((w.without k).park k j).Tidy := (tidy.without k).park lt j
      have free : (w.without k).tasks.get? k = none := by simp
      refine ⟨_, by rw [run_of_task task, holds],
        (kept.moves (work_moves free lt j).moves parked ?_).2⟩
      exact ⟨(sole.erase k).set k _, lt, fun y hy => by
        rw [park_self] at hy
        cases hy
        exact ⟨holds, opened⟩⟩
  obtain ⟨u, hu, sole, keeps⟩ := turn
  rw [hu] at seat ⊢
  cases left : u.tasks.get? k with
  | none =>
    simp only [releaseAfter, left] at seat ⊢
    exact release_tends sole seat alive
  | some y =>
    simp only [releaseAfter, left] at seat ⊢
    exact .inr ⟨y.job, ⟨k, y, left, rfl⟩, (keeps.2 y left).1⟩

/-- **What is left alone is gone**: after every act an engine that is there is owned or held, if no
task has been about to close one. -/
theorem Tended.act (h : w.Tended) (tidy : w.Tidy) (sole : w.tasks.Sole) {a : Act}
    (possible : a.IsPossible w) (opened : ∀ j, w.HasJob j → j.closes = false) :
    (w.act a).Tended := by
  intro e q seat alive
  by_cases owned : 0 < q.handles
  · exact .inl owned
  obtain ⟨b, ho, hm⟩ := act_moves tidy.tasks possible
  obtain ⟨p', seat', handles, gone⟩ := hm.seat seat
  rcases ho.unowned seat' (by omega) with ⟨p, before, unowned, same⟩ | ⟨side, rfl⟩
  · have here : p.gone = false := by
      rw [same]
      exact Bool.eq_false_iff.mpr fun h => by rw [gone h] at alive; cases alive
    obtain ⟨j, ⟨k, x, task, rfl⟩, holds⟩ := (h e p before here).resolve_left (by omega)
    by_cases turn : a = .turn k
    · subst turn
      exact run_tends tidy sole task holds (opened _ ⟨k, x, task, rfl⟩) seat alive
    · obtain ⟨y, task', job⟩ := act_stays tidy possible task turn
      exact .inr ⟨y.job, ⟨k, y, task', rfl⟩, job ▸ holds⟩
  · exact release_tends (w := w.modifySeat _ e) (by simpa using sole) seat alive

end World

end Switchboard
