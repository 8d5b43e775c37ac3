import Mathlib.Data.List.Induction
import Switchboard.Proofs.Leads
import Switchboard.Proofs.Results

/-! # What becomes of a registered handler

A handler is in the server's table from the moment it is added, long before the
server's listener is registered. When an attempt to register the listener fails,
the task that made it takes its handler out again, and it knows the handler only
by what it is, not by who added it. So if a handler is added, taken away and added
again while the first attempt is still on its way, the failure of the first takes
out what the second has added. Main statement: nothing else does
(`registration_kept_iff`).
-/

namespace Switchboard

/-- The task adds this very handler for the method, or waits to hear that it may stay. -/
def Use.registers (u : Use) (s : ServerId) (m : Address) (h : Handler) : Bool :=
  match u with
  | .serve s' m' h' => s' == s && m' == m && h'.same h
  | .request _ _ _ => false

theorem Use.registers_iff {u : Use} {s : ServerId} {m : Address} {h : Handler} :
    u.registers s m h = true ↔ ∃ h', u = .serve s m h' ∧ h'.same h = true := by
  cases u with
  | request i id r => simp [registers]
  | serve s' m' h' =>
    simp only [registers, Bool.and_eq_true, beq_iff_eq, serve.injEq]
    constructor
    · intro hx
      obtain ⟨⟨rfl, rfl⟩, same⟩ := hx
      exact ⟨h', ⟨rfl, rfl, rfl⟩, same⟩
    · intro hx
      obtain ⟨_, ⟨rfl, rfl, rfl⟩, same⟩ := hx
      exact ⟨⟨rfl, rfl⟩, same⟩

namespace World

variable {w v : World} {t : TaskId} {s : ServerId} {m : Address} {h : Handler}

def handlersOf (w : World) (s : ServerId) : Option (List (Address × Handler)) :=
  (w.servers.get? s).map (·.handlers)

def Maps (w : World) (s : ServerId) (m : Address) (h : Handler) : Prop :=
  ∃ v, w.servers.get? s = some v ∧ v.handler? m = some h

/-- A task that is waiting has been asked to register the very handler for the method. -/
def Registers (w : World) (t : TaskId) (s : ServerId) (m : Address) (h : Handler) : Bool :=
  (w.tasks.get? t).any fun x => x.job.use?.any fun u => u.registers s m h

theorem maps_iff : w.Maps s m h ↔ ∃ hs, w.handlersOf s = some hs ∧ hs.lookup m = some h := by
  simp only [Maps, handlersOf, Option.map_eq_some_iff]
  constructor
  · intro hx
    obtain ⟨v, hv, hm⟩ := hx
    exact ⟨_, ⟨v, hv, rfl⟩, hm⟩
  · intro hx
    obtain ⟨_, ⟨v, hv, rfl⟩, hm⟩ := hx
    exact ⟨v, hv, hm⟩

theorem Maps.of_same (hm : w.Maps s m h) (same : v.handlersOf s = w.handlersOf s) :
    v.Maps s m h := by
  rw [maps_iff] at hm ⊢
  rwa [same]

theorem handlersOf_congr (servers : v.servers = w.servers) (s : ServerId) :
    v.handlersOf s = w.handlersOf s := by
  rw [handlersOf, handlersOf, servers]

theorem modifySeat_handlersOf (w : World) (f : Seat → Seat) (e : EngineId) (s : ServerId) :
    (w.modifySeat f e).handlersOf s = w.handlersOf s := by
  simp only [handlersOf, modifySeat_servers]
  split
  · simp [Function.comp_def]
  · rfl

theorem settleCell_handlersOf (w : World) (e : EngineId) (r : Except Status Unit)
    (s : ServerId) : (w.settleCell e r).handlersOf s = w.handlersOf s := by
  rcases settleCell_eq w e r with he | ⟨cell, ts, he⟩
  · rw [he]
  · rw [he, handlersOf_congr (wakeAll_servers ..), modifySeat_handlersOf]

end World

namespace Server

theorem handler?_removeHandler (v : Server) (m m' : Address) :
    (v.removeHandler m).handler? m' = if m' = m then none else v.handler? m' := by
  simp only [handler?, removeHandler]
  induction v.handlers with
  | nil => simp
  | cons e l ih =>
    obtain ⟨k, h⟩ := e
    by_cases hk : k = m
    · subst hk
      rw [List.filter_cons_of_neg (by simp), ih]
      split
      · rfl
      · rename_i hne
        rw [List.lookup_cons, show (m' == k) = false by simpa using hne]
    · rw [List.filter_cons_of_pos (by simpa using hk)]
      by_cases hm : m' = k
      · subst hm
        simp [hk]
      · rw [List.lookup_cons, List.lookup_cons, show (m' == k) = false by simpa using hm, ih]

theorem handler?_addHandler (v : Server) (m m' : Address) (h : Handler) :
    (v.addHandler m h).handler? m' = if m' = m then some h else v.handler? m' := by
  simp only [handler?, addHandler, List.lookup_cons]
  split
  · rename_i hm
    rw [if_pos (by simpa using hm)]
  · rename_i hm
    rw [if_neg (by simpa using hm)]

/-- The clean-up of a failed attempt takes the same handler out, whoever added it. -/
theorem handler?_removeSame (v : Server) (m : Address) (h h' : Handler) (same : h.same h' = true) :
    (v.removeSame m h).handler? m ≠ some h' := by
  unfold removeSame
  split
  · simp [handler?_removeHandler]
  · rename_i other
    intro served
    rw [served] at other
    exact other (by simpa using same)

theorem handler?_removeSame_of_ne {v : Server} {m m' : Address} {h h' : Handler}
    (served : v.handler? m' = some h') (other : ¬(m = m' ∧ h.same h' = true)) :
    (v.removeSame m h).handler? m' = some h' := by
  unfold removeSame
  split
  · rename_i same
    rw [handler?_removeHandler, if_neg, served]
    intro heq
    subst heq
    rw [served] at same
    exact other ⟨rfl, by simpa using same⟩
  · exact served

theorem not_vacant {v : Server} {m : Address} {h : Handler} (served : v.handler? m = some h) :
    v.checkVacant m ≠ .ok () := by
  unfold checkVacant
  split
  · simp
  · split
    · simp
    · simp [served]

end Server

/-! ## Moves -/

open World in
/-- Only two moves change a server's handlers: one adds a handler, one takes it out since the
listener could not be registered. -/
theorem Move.handlers {a b : Option TaskId × World} (hm : Move a b) (s : ServerId) :
    b.2.handlersOf s = a.2.handlersOf s ∨
    (∃ t m h v, a.1 = some t ∧ a.2.tasks.get? t = some ⟨.start (.serve s m h), false⟩ ∧
      a.2.servers.get? s = some v ∧ v.checkVacant m = .ok () ∧
      b.2.servers.get? s = some (v.addHandler m h)) ∨
    ∃ t j m h, ∃ v : Server, ∃ st, a.1 = some t ∧ a.2.tasks.get? t = some ⟨j, false⟩ ∧
      j.use? = some (.serve s m h) ∧ a.2.handlersOf s = some v.handlers ∧
      b.2.servers.get? s = some (v.removeSame m h) ∧
      b.2.Finished t (.error (.failure (.transport st))) := by
  cases hm with
  | @remove w e p side seat unowned alive unheld =>
    left
    simp only [handlersOf, remove_servers]
    split
    · simp [Function.comp_def]
    · rfl
  | @claim w t u p free seat vacant => exact .inl (modifySeat_handlersOf w _ _ s)
  | @wait w t u p waiting free seat attempting => exact .inl (modifySeat_handlersOf w _ _ s)
  | @enrol w t r u hub free registration =>
    left
    rw [handlersOf_congr (proceed_servers ..), settleCell_handlersOf]
    rfl
  | @failRequest w t r i id m st free refusal =>
    left
    rw [handlersOf_congr (complete_servers ..), settleCell_handlersOf]
    rfl
  | @failServe w t r sv m hd st free refusal =>
    have settled := settleCell_handlersOf (w.record (.attempted (.server sv) (.error st)))
      (.server sv) (.error st) s
    have modified := Table.get?_modify ((w.record (.attempted (.server sv) (.error st))).settleCell
      (.server sv) (.error st)).servers sv s (·.removeSame m hd)
    by_cases hs : s = sv
    · subst hs
      rw [if_pos rfl] at modified
      cases hv : ((w.record (.attempted (.server s) (.error st))).settleCell (.server s)
          (.error st)).servers.get? s with
      | none =>
        rw [hv] at modified
        simp only [handlersOf, hv] at settled
        exact .inl ((congrArg _ modified).trans settled)
      | some v =>
        rw [hv] at modified
        simp only [handlersOf, hv] at settled
        exact .inr (.inr ⟨t, _, m, hd, v, st, rfl, by simp; rfl, rfl, settled.symm, modified,
          has_record.mpr (.inl rfl)⟩)
    · rw [if_neg hs] at modified
      exact .inl ((congrArg _ modified).trans settled)
  | @addHandler w t sv v m hd free server vacant =>
    by_cases hs : s = sv
    · subst hs
      exact .inr (.inl ⟨t, m, hd, v, rfl, by simp, server, vacant, by simp [server]⟩)
    · left
      simp [handlersOf, hs]
  | @closeListening w t e p free seat opened registered =>
    exact .inl (modifySeat_handlersOf w _ _ s)
  | @closeDeaf w t e p free seat opened unregistered =>
    exact .inl (modifySeat_handlersOf w _ _ s)
  | @call w v t i method payload options accepted free invoked =>
    have servers := invoke_servers w i method payload options
    rw [invoked] at servers
    exact .inl (handlersOf_congr servers s)
  | @callRefused w v t i method payload options e free invoked =>
    have servers := invoke_servers w i method payload options
    rw [invoked] at servers
    exact .inl (handlersOf_congr servers s)
  | _ => exact .inl (handlersOf_congr (by simp) s)

theorem Move.running {a b : Option TaskId × World} (hm : Move a b) : b.1 = none ∨ b.1 = a.1 := by
  cases hm with
  | @pass w t j es next free passes => cases next <;> simp
  | @enrol w t r u hub free registration => cases (w.onward t u).2 <;> simp
  | _ => simp

theorem Move.ran {a b : Option TaskId × World} (hm : Move a b) {t : TaskId} (goes : b.1 = some t) :
    a.1 = some t := by
  rcases hm.running with none | same
  · rw [none] at goes
    cases goes
  · exact same.symm.trans goes

theorem Outset.turn {w : World} {a : Act} {b : Option TaskId × World} (ho : Outset w a b)
    (tidy : w.Tidy) {t : TaskId} {x : Task} (task : w.tasks.get? t = some x)
    (runs : b.1 = some t) : a = .turn t := by
  cases ho with
  | take t' j ready task' =>
    cases runs
    rfl
  | enter o allowed =>
    cases runs
    exact absurd (tidy.tasks.lt task) (Nat.lt_irrefl _)
  | _ => cases runs

/-- A task that goes on with a registration had it in hand before, or has just started it. -/
theorem Move.use_before {a b : Option TaskId × World} (hm : Move a b) {t : TaskId} {x : Task}
    {s : ServerId} {m : Address} {h : Handler} (goes : b.1 = some t)
    (task : b.2.tasks.get? t = some x) (use : x.job.use? = some (.serve s m h)) :
    (∃ y, a.2.tasks.get? t = some y ∧ y.job.use? = some (.serve s m h)) ∨
      ∃ v, a.2.servers.get? s = some v ∧ v.checkVacant m = .ok () := by
  obtain ⟨w, j, rfl, leads, -⟩ := hm.goes goes task
  obtain ⟨j', cancelled⟩ := x
  dsimp only at leads use
  have before : j.use? = some (.serve s m h) → ∃ y, (w.park t j).tasks.get? t = some y ∧
      y.job.use? = some (.serve s m h) := fun hj => ⟨⟨j, false⟩, by simp, hj⟩
  cases leads with
  | attempt _ u p before' seat =>
    cases use
    exact .inl (before before')
  | wait u => exact .inl (before use)
  | addHandler sv v method hd server vacant =>
    cases use
    exact .inr ⟨v, server, vacant⟩
  | _ => cases use

open World in
/-- A registration in hand stays in hand, or ends: well, or with its handler taken out. -/
theorem Move.registration {a b : Option TaskId × World} (hm : Move a b) {t : TaskId} {x : Task}
    {s : ServerId} {m : Address} {h : Handler} (runs : a.1 = some t)
    (task : a.2.tasks.get? t = some x) (use : x.job.use? = some (.serve s m h)) :
    (∃ y, b.2.tasks.get? t = some y ∧ y.job.use? = some (.serve s m h)) ∨
      b.1 = none ∧ ((∀ r, b.2.Finished t r → a.2.Finished t r) ∨ b.2.Finished t (.ok ()) ∨
        ∀ h', h.same h' = true → ¬b.2.Maps s m h') := by
  have job : ∀ {w : World} {t' : TaskId} {j' : Job}, a = (some t', w.park t' j') →
      t' = t ∧ j'.use? = some (.serve s m h) := by
    intro w t' j' heq
    obtain ⟨ht, rfl⟩ := running_task heq runs task
    exact ⟨ht, use⟩
  cases hm with
  | remove seat unowned alive unheld => cases runs
  | @pass w t' j' es next free passes =>
    obtain ⟨rfl, use⟩ := job rfl
    cases passes with
    | useAtOnce u registered =>
      cases use
      exact .inr ⟨rfl, .inr (.inl (has_record.mpr (.inl rfl)))⟩
    | use u registered =>
      cases use
      exact .inr ⟨rfl, .inr (.inl (has_record.mpr (.inl rfl)))⟩
    | seatless u _ eq seat => exact .inr ⟨rfl, .inl fun r hf => hf⟩
    | attempt u p seat unregistered =>
      cases use
      exact .inl ⟨_, by simp [proceed]; rfl, rfl⟩
    | _ => cases use
  | @doze w t' j' ms free dozes =>
    obtain ⟨rfl, use⟩ := job rfl
    exact .inl ⟨⟨j', false⟩, by simp, use⟩
  | @claim w t' u p free seat vacant =>
    obtain ⟨rfl, use⟩ := job rfl
    exact .inl ⟨⟨.register p.link Address.any (some p.sink) (.engine u.engine) (.use u), false⟩,
      by simp, use⟩
  | @wait w t' u p waiting free seat attempting =>
    obtain ⟨rfl, use⟩ := job rfl
    exact .inl ⟨⟨.resume u, false⟩, by simp, use⟩
  | @enrol w t' r u hub free registration =>
    obtain ⟨rfl, use⟩ := job rfl
    cases use
    exact .inr ⟨rfl, .inr (.inl (has_record.mpr (.inl rfl)))⟩
  | @failServe w t' r sv m' hd st free refusal =>
    obtain ⟨rfl, use⟩ := job rfl
    cases use
    refine .inr ⟨rfl, .inr (.inr fun h' same => ?_)⟩
    intro hx
    obtain ⟨v, hv, served⟩ := hx
    simp only [record_keeps, modifyServer_keeps, Table.get?_modify, if_true,
      Option.map_eq_some_iff] at hv
    obtain ⟨v', -, rfl⟩ := hv
    exact Server.handler?_removeSame v' m h h' same served
  | reply free server replies finish =>
    obtain ⟨rfl, use⟩ := job rfl
    cases replies <;> cases use
  | mute free server replies finish =>
    obtain ⟨rfl, use⟩ := job rfl
    cases replies <;> cases use
  | _ =>
    obtain ⟨rfl, use⟩ := job rfl
    cases use

open World in
/-- A task that adds a handler is refused, or adds it and goes on to ask for the listener. -/
theorem Move.serving {a b : Option TaskId × World} (hm : Move a b) {t : TaskId} {s : ServerId}
    {m : Address} {h : Handler} {v : Server} (runs : a.1 = some t)
    (task : a.2.tasks.get? t = some ⟨.start (.serve s m h), false⟩)
    (server : a.2.servers.get? s = some v) :
    ∃ w : World, a = (some t, w.park t (.start (.serve s m h))) ∧ w.tasks.get? t = none ∧
      ((∃ e, v.checkVacant m = .error e ∧
        b = (none, w.record (.finished t (.error (.failure e))))) ∨
      v.checkVacant m = .ok () ∧
        b = (some t, (w.modifyServer s (·.addHandler m h)).park t (.prepare (.serve s m h)))) := by
  obtain ⟨w, rfl⟩ := hm.parked runs task
  generalize ha : (some t, w.park t (.start (.serve s m h))) = a at hm
  cases hm with
  | remove seat unowned alive unheld => cases ha
  | @pass u t' j es next free passes =>
    obtain ⟨rfl, rfl⟩ := running_inj ha
    have servers : w.servers = u.servers := congrArg (fun x => x.2.servers) ha
    have server : u.servers.get? s = some v := servers ▸ server
    cases passes with
    | serveNowhere _ _ _ missing => cases missing.symm.trans server
    | serveRefused _ v' _ _ e server' refused =>
      cases server'.symm.trans server
      exact ⟨u, rfl, free, .inl ⟨e, refused, rfl⟩⟩
    | postNowhere o l resource draft payload options posting link => cases posting
    | postOffTopic o l resource draft payload options link e posting linked offTopic =>
      cases posting
    | seatless u _ eq seat => rcases eq with eq | eq <;> cases eq
  | @addHandler u t' s' v' m' h' free server' vacant =>
    obtain ⟨rfl, he⟩ := running_inj ha
    cases he
    have servers : w.servers = u.servers := congrArg (fun x => x.2.servers) ha
    cases server'.symm.trans (servers ▸ server)
    exact ⟨u, rfl, free, .inr ⟨vacant, rfl⟩⟩
  | post free posting linked onTopic finish =>
    obtain ⟨rfl, he⟩ := running_inj ha
    cases he
    cases posting
  | postInvalid free posting linked onTopic finish =>
    obtain ⟨rfl, he⟩ := running_inj ha
    cases he
    cases posting
  | doze free dozes =>
    obtain ⟨rfl, rfl⟩ := running_inj ha
    cases dozes
  | reply free server replies finish =>
    obtain ⟨rfl, rfl⟩ := running_inj ha
    cases replies
  | mute free server replies finish =>
    obtain ⟨rfl, rfl⟩ := running_inj ha
    cases replies
  | _ =>
    obtain ⟨rfl, he⟩ := running_inj ha
    cases he

open World in
/-- A registration that nothing forbids begins with the handler being added. -/
theorem Move.adds {a b : Option TaskId × World} (hm : Move a b) {t : TaskId} {s : ServerId}
    {m : Address} {h : Handler} {v : Server} (runs : a.1 = some t)
    (task : a.2.tasks.get? t = some ⟨.start (.serve s m h), false⟩)
    (server : a.2.servers.get? s = some v) (vacant : v.checkVacant m = .ok ()) :
    b.2.Maps s m h ∧ (b.1 = none ∨ b.1 = some t) := by
  obtain ⟨w, rfl, -, ⟨e, refused, -⟩ | ⟨-, rfl⟩⟩ := hm.serving runs task server
  · cases refused.symm.trans vacant
  · have server : w.servers.get? s = some v := server
    refine ⟨⟨v.addHandler m h, by simp [server], ?_⟩, .inr rfl⟩
    rw [Server.handler?_addHandler, if_pos rfl]

namespace World

variable {w v : World} {a b : Option TaskId × World} {t : TaskId} {s : ServerId} {m : Address}
  {h : Handler}

theorem Maps.served (hm : w.Maps s m h) {v : Server} (hv : w.servers.get? s = some v) :
    v.handler? m = some h := by
  obtain ⟨v', hv', served⟩ := hm
  cases hv'.symm.trans hv
  exact served

/-- The registration has failed, and its task knows no handler but this very one. -/
def Failed (w v : World) (t : TaskId) (s : ServerId) (m : Address) (h : Handler) : Prop :=
  w.Registers t s m h = true ∧ ∃ st, v.Finished t (.error (.failure (.transport st)))

theorem registers_iff : w.Registers t s m h = true ↔ ∃ x h', w.tasks.get? t = some x ∧
    x.job.use? = some (.serve s m h') ∧ h'.same h = true := by
  simp only [Registers, Option.any_eq_true, Use.registers_iff]
  constructor
  · intro hc
    obtain ⟨x, hx, _, hu, h', rfl, same⟩ := hc
    exact ⟨x, h', hx, hu, same⟩
  · intro hc
    obtain ⟨x, h', hx, hu, same⟩ := hc
    exact ⟨x, hx, _, hu, h', rfl, same⟩

/-- A handler that serves a method stays in a move, unless the running task takes it out. -/
theorem Maps.move (hm : Move a b) (maps : a.2.Maps s m h) :
    b.2.Maps s m h ∨ ∃ t, a.1 = some t ∧ a.2.Failed b.2 t s m h := by
  obtain ⟨v, hv, served⟩ := maps
  rcases hm.handlers s with same | ⟨t, m', h', v', runs, task, hv', vacant, added⟩ |
    ⟨t, j, m', h', v', st, runs, task, use, before, removed, failed⟩
  · exact .inl (Maps.of_same ⟨v, hv, served⟩ same)
  · cases hv.symm.trans hv'
    refine .inl ⟨_, added, ?_⟩
    rw [Server.handler?_addHandler, if_neg, served]
    intro he
    subst he
    exact Server.not_vacant served vacant
  · have handlers : v.handlers = v'.handlers := by
      rw [handlersOf, hv] at before
      exact Option.some.inj before
    rw [Server.handler?, handlers] at served
    by_cases own : m' = m ∧ h'.same h = true
    · obtain ⟨rfl, same⟩ := own
      exact .inr ⟨t, runs, registers_iff.mpr ⟨_, h', task, use, same⟩, st, failed⟩
    · exact .inl ⟨_, removed, Server.handler?_removeSame_of_ne served own⟩

/-! ## Acts -/

/-- Somebody takes the very handler away, and succeeds. -/
def Unserves (w : World) (a : Act) (s : ServerId) (m : Address) (h : Handler) : Prop :=
  ∃ h', a = .command (.unserve s m h') ∧ h'.same h = true ∧ (w.unserve s m h').1.isOk = true

theorem Maps.outset {a : Act} (ho : Outset w a b) (tidy : w.Tidy) (maps : w.Maps s m h)
    (kept : ¬w.Unserves a s m h) : b.2.Maps s m h := by
  obtain ⟨v, hv, served⟩ := maps
  cases ho with
  | addServer l link linked =>
    refine ⟨v, ?_, served⟩
    rw [Table.get?_insert, if_neg (Nat.ne_of_lt (tidy.servers.lt hv))]
    exact hv
  | hold e owned => exact Maps.of_same ⟨v, hv, served⟩ (modifySeat_handlersOf w _ e s)
  | drop e side owned => exact Maps.of_same ⟨v, hv, served⟩ (modifySeat_handlersOf w _ e s)
  | invoke i method payload options owned =>
    exact Maps.of_same ⟨v, hv, served⟩ (handlersOf_congr (invoke_servers ..) s)
  | fire due next =>
    exact Maps.of_same ⟨v, hv, served⟩ (handlersOf_congr (by simp [fire]) s)
  | unserve s' u u' m' h' server unserved =>
    by_cases hs : s = s'
    · subst hs
      cases hv.symm.trans server
      refine ⟨u', by simp [hv], ?_⟩
      have ok : (w.unserve s m' h').1.isOk = true := by simp [unserve, hv, unserved, Except.isOk,
        Except.toBool]
      simp only [Server.unserve] at unserved
      split at unserved
      · cases unserved
      · split at unserved
        · rename_i same
          cases unserved
          rw [Server.handler?_removeHandler, if_neg, served]
          intro heq
          subst heq
          rw [served] at same
          exact kept ⟨h', rfl, by simpa using same, ok⟩
        · cases unserved
    · exact ⟨v, by simpa [hs] using hv, served⟩
  | _ => exact ⟨v, hv, served⟩

/-- A task that takes its turn with a registration in hand had it before. -/
theorem registers_of_outset {a : Act} (ho : Outset w a b) (runs : b.1 = some t)
    (hr : b.2.Registers t s m h = true) : w.Registers t s m h = true := by
  cases ho with
  | take t' j ready task =>
    cases runs
    simpa [Registers, task] using hr
  | enter o allowed =>
    cases runs
    simp [Registers, Job.use?] at hr
  | _ => cases runs

/-- A handler that serves a method stays in an act, unless it is taken away or a registration of
the very handler fails. -/
theorem Maps.act {a : Act} (possible : a.IsPossible w) (tidy : w.Tidy) (maps : w.Maps s m h)
    (kept : ¬w.Unserves a s m h) :
    (w.act a).Maps s m h ∨ ∃ t, w.Failed (w.act a) t s m h := by
  obtain ⟨c, ho, hc⟩ := act_moves tidy.tasks possible
  -- what runs with the handler in hand is a task that had it in hand before the act
  suffices ∀ d, Moves c d → (d.2.Maps s m h ∧ ∀ t, d.1 = some t → d.2.Registers t s m h = true →
      w.Registers t s m h = true) ∨ ∃ t, w.Failed d.2 t s m h from
    (this _ hc).imp_left And.left
  intro d hd
  induction hd with
  | refl =>
    exact .inl ⟨maps.outset ho tidy kept, fun t runs hr => registers_of_outset ho runs hr⟩
  | @tail d e _ last ih =>
    rcases ih with ⟨maps, had⟩ | ⟨t, had, st, failed⟩
    · rcases maps.move last with maps' | ⟨t, runs, hr, failed⟩
      · refine .inl ⟨maps', fun t goes hr => ?_⟩
        obtain ⟨x, h', task, use, same⟩ := registers_iff.mp hr
        have runs := last.ran goes
        rcases last.use_before goes task use with ⟨y, hy, use'⟩ | ⟨v, hv, vacant⟩
        · exact had t runs (registers_iff.mpr ⟨y, h', hy, use', same⟩)
        · exact absurd vacant (Server.not_vacant (maps.served hv))
      · exact .inr ⟨t, had t runs hr, failed⟩
    · exact .inr ⟨t, had, st, failed.of_suffix last.grows.events⟩

/-- The act adds the handler for the method, under the key of the task. -/
structure Adds (w : World) (a : Act) (t : TaskId) (s : ServerId) (m : Address) (h : Handler) :
    Prop where
  starts : a = .command (.enter (.serve s m h)) ∧ t = w.tasks.next ∨
    a = .turn t ∧ w.tasks.get? t = some ⟨.start (.serve s m h), false⟩
  vacant : ∃ v, w.servers.get? s = some v ∧ v.checkVacant m = .ok ()

/-- A handler that is added serves its method after the act, unless its own registration has failed
by then. -/
theorem Adds.maps {a : Act} (adds : w.Adds a t s m h) (possible : a.IsPossible w) (tidy : w.Tidy) :
    (w.act a).Maps s m h ∨ ∃ st, (w.act a).Finished t (.error (.failure (.transport st))) := by
  obtain ⟨c, ho, hc⟩ := act_moves tidy.tasks possible
  obtain ⟨v, hv, vacant⟩ := adds.vacant
  suffices ∀ d, Moves c d →
      (d.1 = some t ∧ d.2.tasks.get? t = some ⟨.start (.serve s m h), false⟩ ∧
        d.2.servers.get? s = some v) ∨
      (d.2.Maps s m h ∧ (d.1 = none ∨ d.1 = some t)) ∨
      ∃ st, d.2.Finished t (.error (.failure (.transport st))) by
    rcases this _ hc with ⟨runs, -, -⟩ | ⟨maps, -⟩ | failed
    · cases runs
    · exact .inl maps
    · exact .inr failed
  intro d hd
  induction hd with
  | refl =>
    obtain ⟨runs, task, -, servers⟩ := ho.starts adds.starts
    exact .inl ⟨runs, task, servers ▸ hv⟩
  | @tail d e _ last ih =>
    rcases ih with ⟨runs, task, hv⟩ | ⟨maps, running⟩ | ⟨st, failed⟩
    · exact .inr (.inl (last.adds runs task hv vacant))
    · rcases maps.move last with maps' | ⟨t', runs, -, st, failed⟩
      · refine .inr (.inl ⟨maps', ?_⟩)
        rcases last.running with hn | he
        · exact .inl hn
        · rwa [he]
      · rcases running with hn | he
        · rw [hn] at runs
          cases runs
        · rw [he] at runs
          cases runs
          exact .inr (.inr ⟨st, failed⟩)
    · exact .inr (.inr ⟨st, failed.of_suffix last.grows.events⟩)

/-- A registration that fails in an act has taken the handler out by the end of it. -/
theorem Failed.taken {a : Act} (failed : w.Failed (w.act a) t s m h) (possible : a.IsPossible w)
    (tidy : w.Tidy) (results : w.Results) : ¬(w.act a).Maps s m h := by
  obtain ⟨registers, st, failed⟩ := failed
  obtain ⟨x, h', task, use, same⟩ := registers_iff.mp registers
  obtain ⟨c, ho, hc⟩ := act_moves tidy.tasks possible
  have rests : ∀ {d e : Option TaskId × World}, Move d e → d.1 = none →
      e.1 = none ∧ e.2.events = d.2.events ∧ e.2.handlersOf s = d.2.handlersOf s := by
    intro d e last idle
    refine ⟨by simpa [idle] using last.running, ?_, ?_⟩
    · cases last with
      | remove seat unowned alive unheld => simp
      | _ => cases idle
    · rcases last.handlers s with same | ⟨t, _, _, _, runs, _⟩ | ⟨t, _, _, _, _, _, runs, _⟩
      · exact same
      · rw [idle] at runs
        cases runs
      · rw [idle] at runs
        cases runs
  suffices ∀ d, Moves c d → (d.2.Tidy ∧ d.2.Results) ∧
      ((∃ y, d.2.tasks.get? t = some y ∧ y.job.use? = some (.serve s m h')) ∨
      (d.1 = none ∧ ∀ r, ¬d.2.Finished t r) ∨ d.2.Finished t (.ok ()) ∨
      d.1 = none ∧ ¬d.2.Maps s m h) by
    obtain ⟨⟨-, results⟩, ⟨y, task, -⟩ | ⟨-, unfinished⟩ | done | ⟨-, taken⟩⟩ := this _ hc
    · exact absurd failed (results.waiting t y task _)
    · exact absurd failed (unfinished _)
    · cases results.once t _ _ failed done
    · exact taken
  intro d hd
  induction hd with
  | refl =>
    refine ⟨⟨tidy.outset ho, results.outset ho⟩, ?_⟩
    rcases ho.stays tidy task with task | ⟨-, rfl⟩
    · exact .inl ⟨x, task, use⟩
    · exact .inr (.inl ⟨rfl, fun r => results.waiting t x task r⟩)
  | @tail d e _ last ih =>
    obtain ⟨⟨tidy, results⟩, ih⟩ := ih
    refine ⟨⟨tidy.move last, results.move last tidy⟩, ?_⟩
    rcases ih with ⟨y, task, use⟩ | ⟨idle, unfinished⟩ | done | ⟨idle, taken⟩
    · by_cases runs : d.1 = some t
      · rcases last.registration runs task use with goes | ⟨idle, quiet | done | taken⟩
        · exact .inl goes
        · exact .inr (.inl ⟨idle, fun r hf => results.waiting t y task r (quiet r hf)⟩)
        · exact .inr (.inr (.inl done))
        · exact .inr (.inr (.inr ⟨idle, taken h same⟩))
      · rcases last.stays tidy task runs with task | ⟨task, -⟩
        · exact .inl ⟨y, task, use⟩
        · exact .inl ⟨_, task, use⟩
    · obtain ⟨idle', events, -⟩ := rests last idle
      exact .inr (.inl ⟨idle', fun r hf => unfinished r ((has_congr events).mp hf)⟩)
    · exact .inr (.inr (.inl (done.of_suffix last.grows.events)))
    · obtain ⟨idle', -, handlers⟩ := rests last idle
      exact .inr (.inr (.inr ⟨idle', fun maps => taken (maps.of_same handlers.symm)⟩))

/-- Another registration of the very handler, which was still waiting, fails in the act. -/
def Undoes (w : World) (a : Act) (t : TaskId) (s : ServerId) (m : Address) (h : Handler) : Prop :=
  ∃ t', t' ≠ t ∧ w.Failed (w.act a) t' s m h

end World

/-- **A registered handler stays, but for the failure of another registration of it.** A handler
is added to a server, its registration returns well, and nobody takes it away since it was added.
Then it serves its method at every moment since, exactly if no other registration of the very
handler for the method, one that was waiting at the time, has failed. -/
theorem registration_kept_iff {w : World} {as bs : List Act} {a : Act} {t : TaskId} {s : ServerId}
    {m : Address} {h : Handler} (new : w.IsNew) (run : w.CanRun (as ++ a :: bs))
    (adds : (w.after as).Adds a t s m h)
    (returned : (w.after (as ++ a :: bs)).Finished t (.ok ()))
    (kept : ∀ p b q, bs = p ++ b :: q → ¬(w.after (as ++ a :: p)).Unserves b s m h) :
    (∀ p q, bs = p ++ q → (w.after (as ++ a :: p)).Maps s m h) ↔
      ∀ p b q, bs = p ++ b :: q → ¬(w.after (as ++ a :: p)).Undoes b t s m h := by
  have reach : ∀ p q, bs = p ++ q → w.CanRun (as ++ a :: p) := by
    intro p q he
    subst he
    exact (Along.append.mp (by simpa using run : w.CanRun ((as ++ a :: p) ++ q))).1
  have tidy : ∀ ps, w.CanRun ps → (w.after ps).Tidy := fun ps hp =>
    (World.grows_after (.new new) hp).1
  have next : ∀ p b q, bs = p ++ b :: q → w.CanRun (as ++ a :: p) ∧
      b.IsPossible (w.after (as ++ a :: p)) ∧
      w.after (as ++ a :: (p ++ [b])) = (w.after (as ++ a :: p)).act b := by
    intro p b q he
    subst he
    have hb := reach (p ++ [b]) q (by simp)
    rw [← List.cons_append, ← List.append_assoc] at hb ⊢
    obtain ⟨hp, hb⟩ := Along.append.mp hb
    exact ⟨hp, hb.1, by rw [World.after_append]; rfl⟩
  -- the operation has one result, so its own registration has failed at no moment
  have own : ∀ p q, bs = p ++ q → ∀ st,
      ¬(w.after (as ++ a :: p)).Finished t (.error (.failure (.transport st))) := by
    intro p q he st failed
    subst he
    have hr : w.CanRun ((as ++ a :: p) ++ q) := by simpa using run
    obtain ⟨hp, hq⟩ := Along.append.mp hr
    have grows := (World.grows_after (tidy _ hp) hq).2
    rw [← World.after_append, List.append_assoc, List.cons_append] at grows
    cases (World.results_after new run).once t _ _ (failed.of_suffix grows.events) returned
  constructor
  · intro maps p b q hb hx
    obtain ⟨t', -, failed⟩ := hx
    obtain ⟨hp, possible, after⟩ := next p b q hb
    refine failed.taken possible (tidy _ hp) (World.results_after new hp) ?_
    rw [← after]
    exact maps (p ++ [b]) q (by simp [hb])
  · intro undone p
    induction p using List.reverseRecOn with
    | nil =>
      intro q hq
      obtain ⟨has, ha⟩ := Along.append.mp run
      have hn : w.after (as ++ [a]) = (w.after as).act a := by rw [World.after_append]; rfl
      rcases adds.maps ha.1 (tidy as has) with maps | ⟨st, failed⟩
      · rwa [hn]
      · exact absurd (hn ▸ failed) (own [] q hq st)
    | append_singleton p b ih =>
      intro q hq
      rw [List.append_assoc] at hq
      obtain ⟨hp, possible, after⟩ := next p b q hq
      rw [after]
      rcases (ih _ hq).act possible (tidy _ hp) (kept p b q hq) with maps | ⟨t', failed⟩
      · exact maps
      · by_cases ht : t' = t
        · subst ht
          obtain ⟨-, st, failed⟩ := failed
          exact absurd (after ▸ failed) (own (p ++ [b]) q (by simp [hq]) st)
        · exact absurd ⟨t', ht, failed⟩ (undone p b q hq)

/-- An attempt that fails late takes out what was added after it, though the registration of that
returns well. -/
theorem registration_undone_by_earlier_attempt :
    let ids : MessageId.Source := { issue := fun n => .stamped 1 (BitVec.ofNat 74 n) }
    let method : Address := ⟨"server", 2, 1, 1⟩
    let echo : Handler := ⟨0, 0, fun m => .returned m.payload⟩
    let w : World := { wall := 0, ids := ids }
    let as : List Act := [.command (.addLink ⟨"server", 2, 1, 0⟩), .command (.addServer 0),
      .command (.setFault 0 .register ⟨10, some ⟨.unavailable, "down"⟩⟩),
      .command (.enter (.serve 0 method echo)), .command (.unserve 0 method echo)]
    let a : Act := .command (.enter (.serve 0 method echo))
    let bs : List Act := [.fire 10, .turn 0, .command (.setFault 0 .register {}), .turn 1]
    w.IsNew ∧ w.CanRun (as ++ a :: bs) ∧ (w.after as).Adds a 1 0 method echo ∧
      (w.after (as ++ a :: bs)).Finished 1 (.ok ()) ∧
      (∀ p b q, bs = p ++ b :: q → ¬(w.after (as ++ a :: p)).Unserves b 0 method echo) ∧
      ¬∀ p q, bs = p ++ q → (w.after (as ++ a :: p)).Maps 0 method echo := by
  intro ids method echo w as a bs
  have new : w.IsNew := ⟨0, ids, rfl⟩
  have run : w.CanRun (as ++ a :: bs) := by decide +kernel
  have adds : (w.after as).Adds a 1 0 method echo := by
    have vacant : ((w.after as).servers.get? 0).any
        (fun v => (v.checkVacant method).isOk) = true := by
      decide +kernel
    obtain ⟨v, hv, ok⟩ := Option.any_eq_true _ _ |>.mp vacant
    refine ⟨.inl ⟨rfl, by decide +kernel⟩, v, hv, ?_⟩
    cases hc : v.checkVacant method with
    | ok u => rfl
    | error e => simp [hc, Except.isOk, Except.toBool] at ok
  have returned : (w.after (as ++ a :: bs)).Finished 1 (.ok ()) := by
    have result : ((w.after (as ++ a :: bs)).result? 1).bind Except.toOption = some () := by
      decide +kernel
    obtain ⟨r, hr, ok⟩ := Option.bind_eq_some_iff.mp result
    cases r with
    | ok u => exact World.finished_of_result? hr
    | error e => cases ok
  have kept : ∀ p b q, bs = p ++ b :: q →
      ¬(w.after (as ++ a :: p)).Unserves b 0 method echo := by
    intro p b q hb hx
    obtain ⟨h', rfl, -⟩ := hx
    have hm : Act.command (.unserve 0 method h') ∈ bs := by simp [hb]
    simp [bs] at hm
  have undoes : (w.after (as ++ a :: [.fire 10])).Undoes (.turn 0) 1 0 method echo := by
    have result : (((w.after (as ++ a :: [.fire 10])).act (.turn 0)).result? 0).bind
        (fun | .ok _ => none | .error e => some e) =
          some (Refusal.failure (.transport ⟨.unavailable, "down"⟩)) := by
      decide +kernel
    obtain ⟨r, hr, he⟩ := Option.bind_eq_some_iff.mp result
    cases r with
    | ok u => cases he
    | error e =>
      cases he
      exact ⟨0, by simp, by decide +kernel, ⟨.unavailable, "down"⟩, World.finished_of_result? hr⟩
  refine ⟨new, run, adds, returned, kept, fun maps => ?_⟩
  exact (registration_kept_iff new run adds returned kept).mp maps [.fire 10] (.turn 0)
    [.command (.setFault 0 .register {}), .turn 1] rfl undoes

end Switchboard
