import Switchboard.Proofs.Holding
import Switchboard.Proofs.Registrations
import Switchboard.Proofs.Trials

/-! # What the operations of a server are about

Adding a handler and closing a server read and change its handlers, its flag and
its cell: its `Desk`. Nothing else touches the desk, so as long as no task is about
such an operation, or all but one are not (`World.Apart`), the desk stays as it is
or is that one task's business. Main statements: `Move.desk_of_other`,
`Outset.desk`, and what the moves of such a task are (`Move.serving`,
`Move.preparing`, `Move.registering`).
-/

namespace Switchboard

open World

/-- What the operations of a server read and change. -/
structure Desk where
  entity : Address
  handlers : List (Address × Handler)
  closed : Bool
  cell : Cell
  /-- How the attempts to register the server's listener have ended, the earliest first. -/
  attempts : List (Except Status Unit)

def Server.desk (v : Server) (attempts : List (Except Status Unit)) : Desk where
  entity := v.seat.entity
  handlers := v.handlers
  closed := v.seat.closed
  cell := v.seat.cell
  attempts := attempts

namespace World

variable {w v : World} {s : ServerId} {d : Desk}

def desk? (w : World) (s : ServerId) : Option Desk :=
  (w.servers.get? s).map (·.desk (w.attempts (.server s)))

theorem desk?_eq_some :
    w.desk? s = some d ↔ ∃ v, w.servers.get? s = some v ∧ v.desk (w.attempts (.server s)) = d :=
  Option.map_eq_some_iff

theorem desk?_attempts (desk : w.desk? s = some d) : d.attempts = w.attempts (.server s) := by
  obtain ⟨v, -, rfl⟩ := desk?_eq_some.mp desk
  rfl

theorem desk?_eq_none : w.desk? s = none ↔ w.seat? (.server s) = none := by
  simp [desk?, seat?]

theorem desk?_congr (servers : v.servers.get? s = w.servers.get? s)
    (attempts : v.attempts (.server s) = w.attempts (.server s)) : v.desk? s = w.desk? s := by
  rw [desk?, desk?, servers, attempts]

@[simp] theorem park_desk? (w : World) (t : TaskId) (j : Job) : (w.park t j).desk? s = w.desk? s :=
  rfl

@[simp] theorem sleep_desk? (w : World) (t : TaskId) (ms : Nat) (j : Job) :
    (w.sleep t ms j).desk? s = w.desk? s :=
  rfl

@[simp] theorem withHub_desk? (w : World) (hub : Hub) :
    { w with hub := hub }.desk? s = w.desk? s :=
  rfl

@[simp] theorem record_desk? (w : World) (e : Event) : (w.record e).desk? s =
    (w.desk? s).map fun d =>
      { d with attempts := d.attempts ++ (e.attempt? (.server s)).toList } := by
  simp only [desk?, record_seen, Option.map_map]
  rfl

theorem modifyServer_desk? (w : World) (f : Server → Server)
    (seat : ∀ v, (f v).seat = v.seat) {v : Server} (server : w.servers.get? s = some v) :
    (w.modifyServer s f).desk? s =
      some { v.desk (w.attempts (.server s)) with handlers := (f v).handlers } := by
  simp [desk?, server, Server.desk, seat]

theorem setCell_desk? (w : World) (cell : Cell) :
    (w.modifySeat (fun p => { p with cell := cell }) (.server s)).desk? s =
      (w.desk? s).map fun d => { d with cell := cell } := by
  simp only [desk?, modifySeat_servers, if_true, modifySeat_seen, Option.map_map]
  rfl

theorem shut_desk? (w : World) :
    (w.modifySeat (fun p => { p with closed := true }) (.server s)).desk? s =
      (w.desk? s).map fun d => { d with closed := true } := by
  simp only [desk?, modifySeat_servers, if_true, modifySeat_seen, Option.map_map]
  rfl

theorem settleCell_desk? (r : Except Status Unit) (desk : w.desk? s = some d)
    (attempting : d.cell = .attempting []) : (w.settleCell (.server s) r).desk? s =
      some { d with cell := if r.isOk then .registered else .vacant } := by
  obtain ⟨v, server, rfl⟩ := desk?_eq_some.mp desk
  have cell : w.cell? (.server s) = some (.attempting []) := by
    simpa [cell?, seat?, server, Server.desk] using attempting
  cases r with
  | ok u =>
    simp only [settleCell, cell, wakeAll, List.foldl_nil, setCell_desk?, desk]
    rfl
  | error st =>
    simp only [settleCell, cell, setCell_desk?, desk]
    rfl

end World

/-- What a server can be told to do with its handlers. -/
inductive Order
  | serve (method : Address) (h : Handler)
  | unserve (method : Address) (h : Handler)
  | close

def Job.order? (s : ServerId) : Job → Option Order
  | .start (.serve s' method h) => if s' = s then some (.serve method h) else none
  | .start (.close e) => if e = .server s then some .close else none
  | _ => none

def World.order? (w : World) (s : ServerId) (a : Act) : Option Order :=
  match a with
  | .command (.unserve s' method h) => if s' = s then some (.unserve method h) else none
  | a => (w.turn? a).bind fun x => x.2.order? s

theorem Job.order?_eq_serve {j : Job} {s : ServerId} {m : Address} {h : Handler} :
    j.order? s = some (.serve m h) ↔ j = .start (.serve s m h) := by
  unfold order?
  split <;> simp_all

theorem Job.order?_eq_close {j : Job} {s : ServerId} :
    j.order? s = some .close ↔ j = .start (.close (.server s)) := by
  unfold order?
  split <;> simp_all

theorem World.order?_of_turn {w : World} {s : ServerId} {a : Act} {t : TaskId} {j : Job}
    (turn : w.turn? a = some (t, j)) : w.order? s a = j.order? s := by
  rcases turn?_cases turn with ⟨rfl, -⟩ | ⟨o, rfl, -⟩ <;> simp [order?, turn]

/-- An order is given by a command, or by a task that starts. -/
theorem World.order?_cases {w : World} {s : ServerId} {a : Act} {o : Order}
    (ordered : w.order? s a = some o) :
    (∃ m h, a = .command (.unserve s m h)) ∨
      ∃ t p, w.turn? a = some (t, .start p) ∧ (Job.start p).order? s = some o := by
  have started : ∀ a, (w.turn? a).bind (fun x => x.2.order? s) = some o →
      ∃ t p, w.turn? a = some (t, .start p) ∧ (Job.start p).order? s = some o := by
    intro a given
    obtain ⟨⟨t, j⟩, turn, given⟩ := Option.bind_eq_some_iff.mp given
    cases j with
    | start p => exact ⟨t, p, turn, given⟩
    | _ => cases given
  unfold order? at ordered
  split at ordered
  · obtain ⟨rfl, -⟩ := (Option.ite_none_right_eq_some ..).mp ordered
    exact .inl ⟨_, _, rfl⟩
  · exact .inr (started _ ordered)

/-! ## Whose business a desk is -/

/-- The job is to carry an order of the server out, or is part of that. -/
def Job.isFor (s : ServerId) (j : Job) : Bool :=
  (j.order? s).isSome || j.use?.any (·.engine == .server s)

theorem Job.isFor_iff {j : Job} {s : ServerId} : j.isFor s = true ↔
    (∃ o, j.order? s = some o) ∨ ∃ u, j.use? = some u ∧ u.engine = .server s := by
  simp [isFor, Option.isSome_iff_exists, Option.any_eq_true]

theorem Job.isFor_of_order {j : Job} {o : Order} {s : ServerId} (ordered : j.order? s = some o) :
    j.isFor s = true :=
  isFor_iff.mpr (.inl ⟨o, ordered⟩)

theorem Job.isFor_of_use {j : Job} {u : Use} {s : ServerId} (use : j.use? = some u)
    (own : u.engine = .server s) : j.isFor s = true :=
  isFor_iff.mpr (.inr ⟨u, use, own⟩)

theorem Leads.isFor {w : World} {t : TaskId} {j j' : Job} {s : ServerId} (h : Leads w t j j')
    (own : j'.isFor s = true) : j.isFor s = true := by
  cases h with
  | attempt j u p use seat =>
    exact Job.isFor_of_use use (by simpa [Job.isFor, Job.order?, Job.use?] using own)
  | wait u => exact own
  | addHandler s' v m h server vacant =>
    obtain rfl : s' = s := by simpa [Job.isFor, Job.order?, Job.use?, Use.engine] using own
    simp [Job.isFor, Job.order?]
  | call i c m payload options r caller finish minted =>
    simp [Job.isFor, Job.order?, Job.use?, Use.engine] at own
  | _ => cases own

theorem Move.others {a b : Option TaskId × World} (hm : Move a b) {s : ServerId} {t k : TaskId}
    {j : Job} (runs : a.1 = some t) (task : a.2.tasks.get? t = some ⟨j, false⟩)
    (own : j.isFor s = true) (other : k ≠ t) : b.2.tasks.get? k = a.2.tasks.get? k := by
  obtain ⟨w, rfl⟩ := hm.parked runs task
  generalize ha : (some t, w.park t j) = a at hm
  cases hm with
  | remove seat unowned alive unheld => cases ha
  | @pass u t' j' es next free passes =>
    obtain ⟨rfl, rfl⟩ := running_inj ha
    cases next <;> simp [other]
  | @enrol u t' r use hub free registration =>
    obtain ⟨rfl, rfl⟩ := running_inj ha
    cases (u.onward t use).2 <;> simp [other]
  | expire free =>
    obtain ⟨rfl, rfl⟩ := running_inj ha
    cases own
  | answered free caller alive answers =>
    obtain ⟨rfl, rfl⟩ := running_inj ha
    cases own
  | failRequest free refusal =>
    obtain ⟨rfl, rfl⟩ := running_inj ha
    simp [Job.isFor, Job.order?, Job.use?, Use.engine] at own
  | refuse free refusal =>
    obtain ⟨rfl, rfl⟩ := running_inj ha
    cases own
  | broadcast free accepted =>
    obtain ⟨rfl, rfl⟩ := running_inj ha
    cases own
  | call free invoked =>
    obtain ⟨rfl, rfl⟩ := running_inj ha
    cases own
  | callRefused free invoked =>
    obtain ⟨rfl, rfl⟩ := running_inj ha
    cases own
  | _ =>
    obtain ⟨rfl, -⟩ := running_inj ha
    simp [other]

theorem Outset.asked {w : World} {a : Act} {b : Option TaskId × World} (ho : Outset w a b)
    {k : TaskId} {x : Task} {u : Use} {s : ServerId} (task : b.2.tasks.get? k = some x)
    (use : x.job.use? = some u) (own : u.engine = .server s) : w.tasks.get? k = some x := by
  rcases ho.lineage task with old | ⟨-, -, ⟨o, -, start⟩ | ⟨l, m, -, deliver⟩ |
    ⟨i, method, payload, options, -, deadline | ⟨c, m, -, -, -, prepare⟩⟩⟩
  · exact old
  · rw [start] at use
    cases use
  · rw [deliver] at use
    cases use
  · rw [deadline] at use
    cases use
  · rw [prepare] at use
    cases use
    cases own

namespace World

variable {w : World} {a b : Option TaskId × World} {but : Option TaskId} {s : ServerId}

/-- No task but the one, if any, is about the server's desk. An operation that waits to be started
is none yet. -/
structure Apart (a : Option TaskId × World) (but : Option TaskId) (s : ServerId) : Prop where
  asks : ∀ k x u, a.2.tasks.get? k = some x → x.job.use? = some u → u.engine = .server s →
    but = some k
  runs : ∀ k x, a.1 = some k → a.2.tasks.get? k = some x → x.job.isFor s = true → but = some k

theorem Apart.move (h : Apart a but s) (hm : Move a b) (tidy : a.2.Tidy) : Apart b but s := by
  -- a task that is about the desk starts no other tasks, and any other leads to no such job
  have led : ∀ {w : World} {t k : TaskId} {j j' : Job} {x : Task}, a = (some t, w.park t j) →
      Leads w t j j' → j'.isFor s = true → b.2.tasks.get? k = some x →
      (a.2.tasks.get? k = some x → but = some k) → but = some k := by
    intro w t k j j' x ha leads own task before
    have runs : a.1 = some t := by rw [ha]
    have hand : a.2.tasks.get? t = some ⟨j, false⟩ := by rw [ha]; exact park_self w t j
    have own := leads.isFor own
    by_cases hk : k = t
    · rw [hk]
      exact h.runs t _ runs hand own
    · exact before ((hm.others runs hand own hk).symm.trans task)
  refine ⟨fun k x u task use own => ?_, fun k x goes task own => ?_⟩
  · have before : a.2.tasks.get? k = some x → but = some k := fun old => h.asks k x u old use own
    rcases hm.lineage tidy task with ⟨y, hy, same⟩ | ⟨w, j, ha, leads, -⟩ | ⟨-, -, new⟩
    · exact h.asks k y u hy (same ▸ use) own
    · exact led ha leads (Job.isFor_of_use use own) task before
    · rcases new with ⟨w, t, j, ha, leads⟩ | ⟨e, p, -, -, -, -, withdraw⟩
      · exact led ha leads (Job.isFor_of_use use own) task before
      · rw [withdraw] at use
        cases use
  · obtain ⟨w, j, ha, leads, -⟩ := hm.goes goes task
    exact led ha leads own task fun old => h.runs k x (hm.ran goes) old own

theorem Apart.outset (h : Apart (none, w) but s) {act : Act} (ho : Outset w act b)
    (quiet : w.order? s act = none) : Apart b but s := by
  refine ⟨fun k x u task use own => ?_, fun k x runs task own => ?_⟩
  · exact h.asks k x u (ho.asked task use own) use own
  · obtain ⟨running, hand⟩ := turn?_of_outset ho
    obtain ⟨⟨t, j⟩, turn, rfl⟩ := Option.map_eq_some_iff.mp (running.symm.trans runs)
    cases task.symm.trans (hand t j turn)
    rcases Job.isFor_iff.mp own with ⟨o, ordered⟩ | ⟨u, use, own⟩
    · cases ordered.symm.trans ((order?_of_turn turn).symm.trans quiet)
    · rcases turn?_cases turn with ⟨-, before⟩ | ⟨o, -, -, start⟩
      · exact h.asks t _ u before use own
      · rw [start] at use
        cases use

/-! ## What leaves a desk alone -/

end World

/-- A move of a task that is not about a desk leaves the desk alone. -/
theorem Move.desk_of_other {a b : Option TaskId × World} (hm : Move a b) {s : ServerId}
    (other : ∀ (w : World) (t : TaskId) (j : Job), a = (some t, w.park t j) → j.isFor s = false) :
    b.2.desk? s = a.2.desk? s := by
  have barred : ∀ {t : TaskId} {j : Job}, a.1 = some t → a.2.tasks.get? t = some ⟨j, false⟩ →
      j.isFor s ≠ true := by
    intro t j runs task own
    obtain ⟨w, ha⟩ := hm.parked runs task
    rw [other w t j ha] at own
    cases own
  have attempts : b.2.attempts (.server s) = a.2.attempts (.server s) := by
    cases hm.tried (.server s) with
    | none attempts cell => exact attempts
    | success t j u runs task registers own attempts cell =>
      exact absurd (Job.isFor_of_use (Job.use_of_registers registers) own) (barred runs task)
    | failure t j u st runs task registers own attempts cell idle events =>
      exact absurd (Job.isFor_of_use (Job.use_of_registers registers) own) (barred runs task)
  have handlers : b.2.handlersOf s = a.2.handlersOf s := by
    rcases hm.handlers s with same | ⟨t, m, h, v, runs, task, -⟩ |
      ⟨t, j, m, h, v, st, runs, task, use, -⟩
    · exact same
    · exact absurd (Job.isFor_of_order (Job.order?_eq_serve.mpr rfl)) (barred runs task)
    · exact absurd (Job.isFor_of_use use rfl) (barred runs task)
  have spared : ∀ {w : World} {t : TaskId} {j : Job} {u : Use}, a = (some t, w.park t j) →
      j.use? = some u → u.engine ≠ .server s :=
    fun ha use own => by simpa [other _ _ _ ha] using Job.isFor_of_use use own
  have cell : b.2.cell? (.server s) = a.2.cell? (.server s) := by
    rcases hm.cell (.server s) with same | turns
    · exact same
    · cases turns with
      | claimed w t u ha own before after => exact absurd own (spared ha rfl)
      | queued w t u ws ha own idle task ready before after => exact absurd own (spared ha rfl)
      | ended w t r u ws ha own ends before after => exact absurd own (spared ha rfl)
  cases hv : b.2.servers.get? s with
  | none =>
    have gone : b.2.desk? s = none := by simp [desk?, hv]
    rw [gone]
    refine (desk?_eq_none.mpr ?_).symm
    cases seat : a.2.seat? (.server s) with
    | none => rfl
    | some p =>
      obtain ⟨q, hq, -⟩ := hm.grows.seats _ p seat
      simp [seat?, hv] at hq
  | some v =>
    obtain ⟨p, hp, moved⟩ := hm.seat (e := .server s) (q := v.seat) (by simp [seat?, hv])
    obtain ⟨u, hu, rfl⟩ := Option.map_eq_some_iff.mp hp
    have closed : v.seat.closed = u.seat.closed := by
      rw [Bool.eq_iff_iff]
      refine ⟨fun shut => ?_, moved.grows.closed⟩
      rcases moved.closed shut with before | ⟨w, t, ha⟩
      · exact before
      · have spared := other w t _ ha
        rw [Job.isFor_of_order (Job.order?_eq_close.mpr rfl)] at spared
        cases spared
    simp only [handlersOf, cell?, seat?, hv, hu, Option.map_some, Option.some.injEq]
      at handlers cell
    simp only [desk?, hv, hu, attempts, Option.map_some, Server.desk, handlers, cell, closed,
      moved.grows.entity]

namespace World

variable {w : World} {a b : Option TaskId × World} {but : Option TaskId} {s : ServerId}

/-- Such a move changes nothing that an operation of the server goes by. -/
theorem Apart.desk (h : Apart a but s) (hm : Move a b)
    (other : ∀ k, but = some k → a.1 ≠ some k) : b.2.desk? s = a.2.desk? s := by
  refine hm.desk_of_other fun w t j ha => Bool.eq_false_iff.mpr fun own => ?_
  subst ha
  exact other t (h.runs t _ rfl (park_self w t j) own) rfl

end World

/-- At the outset of an act that gives the server no order its desk stays as it is, or the server is
new. -/
theorem Outset.desk {w : World} {a : Act} {b : Option TaskId × World} (ho : Outset w a b)
    {s : ServerId} (tidy : w.Tidy) (quiet : w.order? s a = none) :
    b.2.desk? s = w.desk? s ∨
      w.desk? s = none ∧ ∃ e ss, b.2.desk? s = some ⟨e, [], false, .vacant, ss⟩ := by
  have attempts : b.2.attempts (.server s) = w.attempts (.server s) :=
    seen_outset (fun _ _ _ => rfl) ho
  have handled : ∀ f : Seat → Seat, (∀ p, ∃ n, f p = { p with handles := n }) → ∀ e,
      (w.modifySeat f e).desk? s = w.desk? s := by
    intro f only e
    simp only [desk?, modifySeat_servers, modifySeat_seen]
    split
    · cases w.servers.get? s with
      | none => rfl
      | some v =>
        obtain ⟨n, hn⟩ := only v.seat
        simp [Server.desk, hn]
    · rfl
  cases ho with
  | addServer l link linked =>
    by_cases new : s = w.servers.next
    · subst new
      refine .inr ⟨by simp [desk?, tidy.servers.next], link.address.entity,
        w.attempts (.server w.servers.next), ?_⟩
      simp only [desk?, Table.get?_insert, if_true, attempts]
      rfl
    · exact .inl (desk?_congr (by simp [new]) attempts)
  | hold e owned => exact .inl (handled _ (fun p => ⟨_, rfl⟩) e)
  | drop e side owned => exact .inl (handled _ (fun p => ⟨_, rfl⟩) e)
  | invoke i method payload options owned =>
    exact .inl (desk?_congr (by rw [invoke_servers]) attempts)
  | fire due next => exact .inl (desk?_congr (by simp [World.fire]) attempts)
  | unserve s' v v' method h server unserved =>
    have other : s ≠ s' := by
      rintro rfl
      simp [World.order?] at quiet
    exact .inl (desk?_congr (by simp [other]) attempts)
  | _ => exact .inl (desk?_congr rfl attempts)

theorem Outset.desk_of_start {w : World} {a : Act} {b : Option TaskId × World} (ho : Outset w a b)
    {s : ServerId} {t : TaskId} {p : Operation} (turn : w.turn? a = some (t, .start p)) :
    b.2.desk? s = w.desk? s := by
  have servers : b.2.servers = w.servers := by
    rcases turn?_cases turn with ⟨rfl, task⟩ | ⟨o, rfl, rfl, start⟩
    · exact (ho.starts (.inr ⟨rfl, task⟩)).2.2.2
    · cases start
      exact (ho.starts (.inl ⟨rfl, rfl⟩)).2.2.2
  exact desk?_congr (by rw [servers]) (seen_outset (fun _ _ _ => rfl) ho)

section Tasks

variable {a b : Option TaskId × World} {t : TaskId} {s : ServerId} {m : Address} {h : Handler}

/-- A task that asks for a listener finds it registered, tries to register it, or queues up. -/
theorem Move.preparing (hm : Move a b) {u : Use} {p : Seat} (runs : a.1 = some t)
    (task : a.2.tasks.get? t = some ⟨.prepare u, false⟩) (seat : a.2.seat? u.engine = some p) :
    ∃ w : World, a = (some t, w.park t (.prepare u)) ∧ w.tasks.get? t = none ∧
      (p.cell = .registered ∧
        b = ((w.onward t u).2.map fun _ => t, w.proceed t (w.onward t u).1 (w.onward t u).2) ∨
      p.cell = .vacant ∧
        b = (some t, (w.modifySeat (fun p => { p with cell := .attempting [] }) u.engine).park t
          (.register p.link Address.any (some p.sink) (.engine u.engine) (.use u))) ∨
      ∃ ws, p.cell = .attempting ws) := by
  obtain ⟨w, rfl⟩ := hm.parked runs task
  generalize ha : (some t, w.park t (.prepare u)) = a at hm
  have found : ∀ {v : World}, a = (some t, v.park t (.prepare u)) → v.seat? u.engine = some p := by
    rintro v rfl
    have seats := congrArg (fun x : Option TaskId × World => x.2.seat? u.engine) ha
    exact seats.symm.trans seat
  cases hm with
  | remove seat' unowned alive unheld => cases ha
  | @pass v t' j es next free passes =>
    obtain ⟨rfl, rfl⟩ := running_inj ha
    cases passes with
    | useAtOnce _ registered =>
      refine ⟨v, rfl, free, .inl ⟨?_, rfl⟩⟩
      simpa [cell?, found rfl] using registered
    | seatless u' _ eq missing =>
      rcases eq with eq | eq <;> cases eq
      cases missing.symm.trans (found rfl)
  | @claim v t' u' p' free seat' vacant =>
    obtain ⟨rfl, he⟩ := running_inj ha
    cases he
    cases seat'.symm.trans (found rfl)
    exact ⟨v, rfl, free, .inr (.inl ⟨vacant, rfl⟩)⟩
  | @wait v t' u' p' waiting free seat' attempting =>
    obtain ⟨rfl, he⟩ := running_inj ha
    cases he
    cases seat'.symm.trans (found rfl)
    exact ⟨v, rfl, free, .inr (.inr ⟨waiting, attempting⟩)⟩
  | doze free dozes =>
    obtain ⟨rfl, rfl⟩ := running_inj ha
    cases dozes
  | reply free server replies finish =>
    obtain ⟨rfl, rfl⟩ := running_inj ha
    cases replies
  | mute free server replies finish =>
    obtain ⟨rfl, rfl⟩ := running_inj ha
    cases replies
  | _ =>
    obtain ⟨rfl, he⟩ := running_inj ha
    cases he

/-- A task that registers a server's listener waits for the link, or its attempt ends. -/
theorem Move.registering (hm : Move a b) {l : LinkId} {source : Address} {sink : Option Address}
    {listener : Listener} (runs : a.1 = some t)
    (task : a.2.tasks.get? t =
      some ⟨.register l source sink listener (.use (.serve s m h)), false⟩) :
    ∃ w : World,
      a = (some t, w.park t (.register l source sink listener (.use (.serve s m h)))) ∧
      w.tasks.get? t = none ∧
      (b = (none, w.sleep t (w.delay l .register)
          (.register l source sink listener (.use (.serve s m h)))) ∨
      (∃ hub, b = (none, (({ w with hub := hub }.record
          (.attempted (.server s) (.ok ()))).settleCell (.server s) (.ok ())).record
            (.finished t (.ok ())))) ∨
      ∃ st, b = (none, (((w.record (.attempted (.server s) (.error st))).settleCell (.server s)
        (.error st)).modifyServer s (·.removeSame m h)).record
          (.finished t (.error (.failure (.transport st)))))) := by
  obtain ⟨w, rfl⟩ := hm.parked runs task
  generalize ha : (some t, w.park t
    (.register l source sink listener (.use (.serve s m h)))) = a at hm
  cases hm with
  | remove seat' unowned alive unheld => cases ha
  | @pass v t' j es next free passes =>
    obtain ⟨rfl, rfl⟩ := running_inj ha
    cases passes with
    | seatless u' _ eq missing => rcases eq with eq | eq <;> cases eq
  | @doze v t' j ms free dozes =>
    obtain ⟨rfl, rfl⟩ := running_inj ha
    cases dozes
    exact ⟨v, rfl, free, .inl rfl⟩
  | @enrol v t' r' u hub free registration =>
    obtain ⟨rfl, he⟩ := running_inj ha
    cases he
    exact ⟨v, rfl, free, .inr (.inl ⟨hub, rfl⟩)⟩
  | @failServe v t' r' sv m' hd st free refusal =>
    obtain ⟨rfl, he⟩ := running_inj ha
    cases he
    exact ⟨v, rfl, free, .inr (.inr ⟨st, rfl⟩)⟩
  | reply free server replies finish =>
    obtain ⟨rfl, rfl⟩ := running_inj ha
    cases replies
  | mute free server replies finish =>
    obtain ⟨rfl, rfl⟩ := running_inj ha
    cases replies
  | _ =>
    obtain ⟨rfl, he⟩ := running_inj ha
    cases he

end Tasks

end Switchboard
