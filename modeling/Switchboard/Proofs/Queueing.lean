import Mathlib.Data.List.Basic
import Switchboard.Proofs.Attempts
import Switchboard.Proofs.Deeds

/-! # Deliveries in the queue

The hub hands a message to the registrations that accept it at that moment, each by a task of its
own. Whatever becomes of the registrations afterwards, these tasks wait in the queue and nowhere
else until they take their turns. So what waits for a listener grows by its copies of a message that
is passed to the hub (`World.Broadcasts.queued`), and shrinks by what it is handed
(`World.queued_outset`), in the order of the queue if the deliveries keep to it; nothing else
changes it (`World.Posted.queued`).
-/

namespace Switchboard

/-- The message has a source that the source filter admits. Without a sink filter it has no sink,
else it has a sink that the filter admits. -/
def Registration.Matches (r : Registration) (m : Message) : Prop :=
  (∃ source, m.attributes.source = some source ∧ r.source.admits source = true) ∧
    match r.sink with
    | none => m.attributes.sink = none
    | some filter => ∃ sink, m.attributes.sink = some sink ∧ filter.admits sink = true

theorem Registration.accepts_iff {r : Registration} {m : Message} :
    r.accepts m = true ↔ r.Matches m := by
  rw [accepts, Matches, Bool.and_eq_true, Option.any_eq_true]
  refine and_congr_right fun _ => ?_
  cases r.sink <;> cases m.attributes.sink <;> simp

def Job.deliveryTo? (l : Listener) : Job → Option Message
  | .deliver l' m => if l' = l then some m else none
  | _ => none

theorem Job.deliveryTo?_eq_some {j : Job} {l : Listener} {m : Message} :
    j.deliveryTo? l = some m ↔ j = .deliver l m := by
  cases j with
  | deliver l' m' =>
    simp only [deliveryTo?, Option.ite_none_right_eq_some, Option.some.injEq, Job.deliver.injEq]
  | _ => simp [deliveryTo?]

/-- What a listener gets of a message: one copy for each of its registrations that accept it. -/
def Hub.copies (h : Hub) (l : Listener) (m : Message) : List Message :=
  List.replicate (h.registrations.countP fun r => r.listener == l && r.accepts m) m

namespace World

def isDelivery (w : World) (k : TaskId) : Bool :=
  (w.tasks.get? k).any fun x => x.job.delivery?.isSome

def deliveryTo? (w : World) (l : Listener) (k : TaskId) : Option Message :=
  (w.tasks.get? k).bind fun x => x.job.deliveryTo? l

/-- What waits for a listener, in the order of the queue. -/
def queued (w : World) (l : Listener) : List Message := w.ready.filterMap (w.deliveryTo? l)

def receives (w : World) (l : Listener) (a : Act) : List Message :=
  ((w.turn? a).bind fun x => x.2.deliveryTo? l).toList

/-- Deliveries take their turns in the order of the queue. -/
def InOrder (w : World) : Act → Prop
  | .turn t => w.isDelivery t = true → w.ready.find? w.isDelivery = some t
  | _ => True

instance (w : World) (a : Act) : Decidable (w.InOrder a) :=
  match a with
  | .turn t =>
    inferInstanceAs (Decidable (w.isDelivery t = true → w.ready.find? w.isDelivery = some t))
  | .command _ => inferInstanceAs (Decidable True)
  | .fire _ => inferInstanceAs (Decidable True)
  | .clock _ => inferInstanceAs (Decidable True)
  | .inbound _ _ => inferInstanceAs (Decidable True)

variable {w v : World} {a b : Option TaskId × World} {l : Listener} {k t : TaskId} {m : Message}
  {x : Task}

theorem deliveryTo?_eq_some : w.deliveryTo? l k = some m ↔
    ∃ x, w.tasks.get? k = some x ∧ x.job = .deliver l m := by
  rw [deliveryTo?, Option.bind_eq_some_iff]
  exact exists_congr fun x => and_congr_right fun _ => Job.deliveryTo?_eq_some

theorem isDelivery_iff : w.isDelivery k = true ↔
    ∃ x l m, w.tasks.get? k = some x ∧ x.job = .deliver l m := by
  rw [isDelivery, Option.any_eq_true]
  refine exists_congr fun x => ?_
  cases x.job <;> simp [Job.delivery?]

theorem queued_congr (ready : v.ready = w.ready)
    (same : ∀ k ∈ w.ready, v.deliveryTo? l k = w.deliveryTo? l k) : v.queued l = w.queued l := by
  rw [queued, queued, ready]
  exact List.filterMap_congr same

/-! ## The hub starts the deliveries -/

theorem queued_spawn (bounded : ∀ k ∈ w.ready, k < w.tasks.next) (j : Job) :
    (w.spawn j).2.queued l = w.queued l ++ (j.deliveryTo? l).toList := by
  have old : ∀ k ∈ w.ready, (w.spawn j).2.deliveryTo? l k = w.deliveryTo? l k := by
    intro k hk
    have other : k ≠ w.tasks.next := Nat.ne_of_lt (bounded k hk)
    simp [deliveryTo?, other]
  have new : (w.spawn j).2.deliveryTo? l w.tasks.next = j.deliveryTo? l := by
    simp [deliveryTo?]
  have ready : (w.spawn j).2.ready = w.ready ++ [w.tasks.next] := rfl
  rw [queued, ready, List.filterMap_append, List.filterMap_congr old, queued]
  simp only [List.filterMap_cons, new, List.filterMap_nil]
  cases j.deliveryTo? l <;> rfl

/-- A listener gets a copy for each time that it stands among the recipients. -/
theorem queued_spawns (bounded : ∀ k ∈ w.ready, k < w.tasks.next) (m : Message)
    (ls : List Listener) :
    (ls.foldl (fun w l' => (w.spawn (.deliver l' m)).2) w).queued l =
      w.queued l ++ List.replicate (ls.countP (· == l)) m := by
  induction ls generalizing w with
  | nil => simp
  | cons l' ls ih =>
    rw [List.foldl_cons, ih (bounded_spawn bounded), queued_spawn bounded, List.append_assoc,
      List.countP_cons]
    by_cases own : l' = l <;> simp [Job.deliveryTo?, own, List.replicate_succ]

/-- The hub starts as many deliveries to a listener as it has registrations that accept the
message. -/
theorem queued_broadcast (bounded : ∀ k ∈ w.ready, k < w.tasks.next) (m : Message) :
    (w.broadcast m).queued l = w.queued l ++ w.hub.copies l m := by
  rw [broadcast, queued_spawns bounded, Hub.copies, Hub.recipients, List.countP_map,
    List.countP_filter]
  rfl

/-- In the move the running task passes the message to the hub. -/
def Broadcasts (a b : Option TaskId × World) (m : Message) : Prop :=
  ∃ (w : World) (t : TaskId) (l : LinkId) (after : AfterSend),
    a = (some t, w.park t (.send l m after)) ∧ w.tasks.get? t = none ∧
      w.refusal? l .send = none ∧ b = (none, (w.broadcast m).recordAll (after.events t (.ok ())))

theorem Broadcasts.queued (h : Broadcasts a b m) (bounded : ∀ k ∈ a.2.ready, k < a.2.tasks.next)
    (l : Listener) : b.2.queued l = a.2.queued l ++ b.2.hub.copies l m := by
  obtain ⟨w, t, l', after, rfl, free, -, rfl⟩ := h
  have parked : (w.park t (.send l' m after)).queued l = w.queued l := by
    refine queued_congr rfl fun k _ => ?_
    by_cases own : k = t <;> simp [deliveryTo?, own, free, Job.deliveryTo?]
  have bounded : ∀ k ∈ w.ready, k < w.tasks.next := bounded
  calc ((w.broadcast m).recordAll (after.events t (.ok ()))).queued l
      = (w.broadcast m).queued l := queued_congr (by simp) fun k _ => by simp [deliveryTo?]
    _ = w.queued l ++ w.hub.copies l m := queued_broadcast bounded m
    _ = (w.park t (.send l' m after)).queued l ++
          ((w.broadcast m).recordAll (after.events t (.ok ()))).hub.copies l m := by
        rw [parked]
        simp

theorem ready_spawns (ready : k ∈ w.ready) (m : Message) (ls : List Listener) :
    k ∈ (ls.foldl (fun w l => (w.spawn (.deliver l m)).2) w).ready := by
  induction ls generalizing w with
  | nil => exact ready
  | cons l ls ih => exact ih (List.mem_append_left _ ready)

theorem ready_broadcast (old : w.tasks.next ≤ k) (new : k < (w.broadcast m).tasks.next) :
    k ∈ (w.broadcast m).ready := by
  unfold broadcast at new ⊢
  generalize w.hub.recipients m = ls at new ⊢
  induction ls generalizing w with
  | nil => exact absurd new (Nat.not_lt.mpr old)
  | cons l ls ih =>
    rcases Nat.eq_or_lt_of_le old with rfl | later
    · exact ready_spawns (List.mem_append_right _ (List.mem_singleton.mpr rfl)) m ls
    · exact ih (w := (w.spawn (.deliver l m)).2) later new

end World

open World

/-- A delivery is there before a move, or the move has started it. -/
theorem Move.delivery {a b : Option TaskId × World} (hm : Move a b) (tidy : a.2.Tidy) {k : TaskId}
    {x : Task} {l : Listener} {m : Message} (task : b.2.tasks.get? k = some x)
    (job : x.job = .deliver l m) :
    (∃ y, a.2.tasks.get? k = some y ∧ y.job = .deliver l m) ∨
      Broadcasts a b m ∧ x.cancelled = false ∧ k ∈ b.2.ready := by
  rcases hm.lineage tidy task with ⟨y, hy, same⟩ | ⟨w, j, -, -, other⟩ | ⟨new, -, later⟩
  · exact .inl ⟨y, hy, same.symm.trans job⟩
  · exact absurd job (other l m)
  · rw [job] at later
    rcases later with ⟨w, t, j, ha, leads⟩ | ⟨e, p, -, -, -, -, withdraw⟩
    · cases leads with
      | broadcast l' m after listener accepted recipient =>
        obtain ⟨u, rfl, free, sends⟩ := hm.sending ha
        have before : ∀ {y : Task}, u.tasks.get? k = some y → x.job = y.job →
            ∃ y, (u.park t (.send l' m after)).tasks.get? k = some y ∧ y.job = .deliver l m := by
          intro y hy same
          have other : k ≠ t := by
            rintro rfl
            rw [free] at hy
            cases hy
          exact ⟨y, by simpa [other] using hy, same.symm.trans job⟩
        cases sends with
        | waits =>
          simp only [sleep_keeps, Table.get?_set] at task
          split at task
          · cases task
            cases job
          · exact .inl (before task rfl)
        | refused refusal other => exact .inl (before (by simpa using task) rfl)
        | ended refusal =>
          obtain ⟨y, hy, same⟩ := complete_task task
          exact .inl (before hy same)
        | passed accepts =>
          have task : (u.broadcast m).tasks.get? k = some x := by simpa using task
          have ready : k ∈ (u.broadcast m).ready :=
            ready_broadcast new ((tidy.unpark.broadcast m).tasks.lt task)
          rcases broadcast_task tidy.unpark.tasks task with old | ⟨n, listener, -, -, rfl⟩
          · exact .inl (before old rfl)
          · exact .inr ⟨⟨u, t, l', _, rfl, free, accepts, rfl⟩, rfl, by simpa using ready⟩
    · cases withdraw

/-! ## Deliveries wait in the queue -/

namespace World

variable {w : World} {a b : Option TaskId × World} {l : Listener} {k t : TaskId} {m : Message}

/-- Every delivery is ready or takes its turn, and none is cancelled. -/
structure Posted (a : Option TaskId × World) : Prop where
  ready : ∀ k x l m, a.2.tasks.get? k = some x → x.job = .deliver l m →
    x.cancelled = false ∧ (k ∈ a.2.ready ∨ a.1 = some k)
  running : ∀ k x l m, a.1 = some k → a.2.tasks.get? k = some x → x.job = .deliver l m →
    k ∉ a.2.ready

/-- In a move tasks only join the queue. -/
theorem joins_move (hm : Move a b) (turn : InTurn a) :
    ∃ ks, b.2.ready = a.2.ready ++ ks ∧ ∀ k ∈ ks, k ∉ a.2.ready := by
  have joins : Joins (fun _ => True) a.2.ready b.2.ready :=
    hm.joins turn.bounded (fun _ _ _ => trivial) (fun _ _ _ _ => trivial)
      (fun c call k place waits => ⟨trivial, (turn.wakeful.awaited c call k place waits).1⟩)
      fun _ _ => trivial
  obtain ⟨ks, ready, joined⟩ := joins.exists_append
  exact ⟨ks, ready, fun k hk => (joined k hk).2⟩

/-- A delivery that takes its turn is done with in a move. -/
theorem not_delivery_of_running (hm : Move a b) (h : Posted a) (runs : a.1 = some k) {x y : Task}
    (before : a.2.tasks.get? k = some y) (job : y.job = .deliver l m)
    (task : b.2.tasks.get? k = some x) (l' : Listener) (m' : Message) : x.job ≠ .deliver l' m' := by
  obtain ⟨j, cancelled⟩ := y
  obtain rfl : j = .deliver l m := job
  obtain rfl : cancelled = false := (h.ready k _ l m before rfl).1
  obtain ⟨w, ha⟩ := hm.parked runs before
  exact hm.delivers ha task l' m'

theorem Posted.move (h : Posted a) (hm : Move a b) (tidy : a.2.Tidy) (turn : InTurn a) :
    Posted b := by
  obtain ⟨ks, joined, -⟩ := joins_move hm turn
  refine ⟨fun k x l m task job => ?_, fun k x l m goes task job => ?_⟩
  · rcases hm.delivery tidy task job with ⟨y, before, job'⟩ | ⟨-, alive, ready⟩
    · by_cases runs : a.1 = some k
      · exact absurd job (not_delivery_of_running hm h runs before job' task l m)
      · obtain ⟨alive, ready⟩ := h.ready k y l m before job'
        have same := turn.wakeful.keeps hm tidy before runs (by rw [job']; rfl)
        cases same.symm.trans task
        exact ⟨alive, .inl (joined ▸ List.mem_append_left _ (ready.resolve_right runs))⟩
    · exact ⟨alive, .inl ready⟩
  · obtain ⟨w, j, -, -, other⟩ := hm.goes goes task
    exact absurd job (other l m)

/-- A move that passes nothing to the hub leaves alone what waits for a listener. -/
theorem Posted.queued (h : Posted a) (hm : Move a b) (tidy : a.2.Tidy) (turn : InTurn a)
    (quiet : ∀ m, ¬Broadcasts a b m) (l : Listener) : b.2.queued l = a.2.queued l := by
  obtain ⟨ks, joined, fresh⟩ := joins_move hm turn
  have old : ∀ k m, b.2.deliveryTo? l k = some m →
      k ∈ a.2.ready ∧ a.2.deliveryTo? l k = some m := by
    intro k m delivery
    obtain ⟨x, task, job⟩ := deliveryTo?_eq_some.mp delivery
    rcases hm.delivery tidy task job with ⟨y, before, job'⟩ | ⟨passed, -⟩
    · refine ⟨(h.ready k y l m before job').2.resolve_right fun runs => ?_,
        deliveryTo?_eq_some.mpr ⟨y, before, job'⟩⟩
      exact not_delivery_of_running hm h runs before job' task l m job
    · exact absurd passed (quiet m)
  have kept : ∀ k ∈ a.2.ready, b.2.deliveryTo? l k = a.2.deliveryTo? l k := by
    intro k hk
    refine Option.ext fun m => ⟨fun delivery => (old k m delivery).2, fun delivery => ?_⟩
    obtain ⟨y, before, job⟩ := deliveryTo?_eq_some.mp delivery
    have idle : a.1 ≠ some k := fun runs => h.running k y l m runs before job hk
    have task := turn.wakeful.keeps hm tidy before idle (by rw [job]; rfl)
    exact deliveryTo?_eq_some.mpr ⟨y, task, job⟩
  have none : ks.filterMap (b.2.deliveryTo? l) = [] := by
    refine List.filterMap_eq_nil_iff.mpr fun k hk => Option.eq_none_iff_forall_ne_some.mpr ?_
    exact fun m delivery => fresh k hk (old k m delivery).1
  rw [World.queued, joined, List.filterMap_append, none, List.append_nil, List.filterMap_congr kept]
  rfl

end World

/-- At the outset of an act a delivery was there before, or a network brings it. -/
theorem Outset.delivery {w : World} {a : Act} {b : Option TaskId × World} (ho : Outset w a b)
    {k : TaskId} {x : Task} {l : Listener} {m : Message} (task : b.2.tasks.get? k = some x)
    (job : x.job = .deliver l m) : w.tasks.get? k = some x ∨ a = .inbound l m := by
  rcases ho.lineage task with old | ⟨-, -, ⟨o, -, start⟩ | ⟨l', m', ha, deliver⟩ |
    ⟨i, method, payload, options, -, deadline | ⟨c, r, -, -, -, prepare⟩⟩⟩
  · exact .inl old
  · cases job.symm.trans start
  · cases job.symm.trans deliver
    exact .inr ha
  · cases job.symm.trans deadline
  · cases job.symm.trans prepare

namespace World

variable {w : World} {a : Act} {b : Option TaskId × World} {l : Listener} {k t : TaskId}

theorem joins_outset (ho : Outset w a b) (turn : InTurn (none, w)) :
    ∃ q ks, ((∀ t, a ≠ .turn t) ∧ q = w.ready ∨ ∃ t, a = .turn t ∧ q = w.ready.erase t) ∧
      b.2.ready = q ++ ks ∧ ∀ k ∈ ks, k ∉ q := by
  obtain ⟨q, hq, joins⟩ := ho.joins (S := fun _ => True) turn.bounded (fun _ _ _ => trivial)
    fun _ _ _ => trivial
  obtain ⟨ks, ready, joined⟩ := joins.exists_append
  exact ⟨q, ks, hq, ready, fun k hk => (joined k hk).2⟩

theorem Posted.outset (h : Posted (none, w)) (ho : Outset w a b) (turn : InTurn (none, w)) :
    Posted b := by
  obtain ⟨q, ks, left, joined, -⟩ := joins_outset ho turn
  refine ⟨fun k x l m task job => ?_, fun k x l m goes _ _ =>
    ho.leaves turn.nodup turn.bounded goes⟩
  have stays : k ∈ q → k ∈ b.2.ready := fun hk => joined ▸ List.mem_append_left _ hk
  rcases ho.delivery task job with old | rfl
  · obtain ⟨alive, ready⟩ := h.ready k x l m old job
    refine ⟨alive, ?_⟩
    have ready : k ∈ w.ready := ready.resolve_right (by simp)
    rcases left with ⟨-, rfl⟩ | ⟨t, rfl, rfl⟩
    · exact .inl (stays ready)
    · by_cases own : k = t
      · subst own
        cases ho with
        | take t j ready task' => exact .inr rfl
        | discard t j ready task' => simp at task
        | stale t ready task' => cases task'.symm.trans task
      · exact .inl (stays ((List.mem_erase_of_ne own).mpr ready))
  · cases ho with
    | inbound l m =>
      rw [show (w.spawn (.deliver l m)).2.tasks = (w.tasks.insert ⟨.deliver l m, false⟩).2 from rfl,
        Table.get?_insert] at task
      split at task
      · rename_i new
        cases task
        exact ⟨rfl, .inl (List.mem_append_right _ (List.mem_singleton.mpr new))⟩
      · obtain ⟨alive, ready⟩ := h.ready k x l m task job
        exact ⟨alive, .inl (List.mem_append_left _ (ready.resolve_right (by simp)))⟩

theorem Posted.new (h : w.IsNew) : Posted (none, w) := by
  obtain ⟨wall, ids, rfl⟩ := h
  exact ⟨fun k x l m task => by simp [Table.get?] at task, fun k x l m runs => by cases runs⟩

/-- **Deliveries wait in the queue and nowhere else**, in every run. -/
theorem Posted.kept : Kept (fun _ _ => True) fun a => InTurn a ∧ Posted a :=
  InTurn.kept.add (fun _ ho _ turn _ h => h.outset ho turn)
    fun tidy hm turn _ h => h.move hm tidy turn

theorem deliveryTo?_none (h : w.isDelivery k = false) (l : Listener) :
    w.deliveryTo? l k = none := by
  refine Option.eq_none_iff_forall_ne_some.mpr fun m delivery => ?_
  obtain ⟨x, task, job⟩ := deliveryTo?_eq_some.mp delivery
  rw [isDelivery_iff.mpr ⟨x, l, m, task, job⟩] at h
  cases h

/-- The task whose turn it is hands its message to its listener. -/
theorem Posted.receives (h : Posted (none, w)) (l : Listener) (t : TaskId) :
    w.receives l (.turn t) = (w.deliveryTo? l t).toList := by
  cases task : w.tasks.get? t with
  | none => simp [World.receives, turn?, deliveryTo?, task]
  | some x =>
    obtain ⟨j, cancelled⟩ := x
    cases cancelled with
    | false => simp [World.receives, turn?, deliveryTo?, task]
    | true =>
      have idle : w.deliveryTo? l t = none := by
        refine Option.eq_none_iff_forall_ne_some.mpr fun m delivery => ?_
        obtain ⟨x, task', job⟩ := deliveryTo?_eq_some.mp delivery
        cases task.symm.trans task'
        cases (h.ready t _ l m task job).1
      simp [World.receives, turn?, task, idle]

/-- A task that takes its turn is handed on, and the others wait on. -/
theorem queued_turn (h : Posted (none, w)) (ready : t ∈ w.ready) :
    (w.queued l).Perm (w.receives l (.turn t) ++ (w.ready.erase t).filterMap (w.deliveryTo? l)) ∧
      (w.InOrder (.turn t) →
        w.queued l = w.receives l (.turn t) ++ (w.ready.erase t).filterMap (w.deliveryTo? l)) := by
  obtain ⟨before, later, split, first⟩ := List.eq_append_cons_of_mem ready
  have rest : w.ready.erase t = before ++ later := by
    rw [split, List.erase_append_right _ first, List.erase_cons_head]
  have all : w.queued l = before.filterMap (w.deliveryTo? l) ++
      ((w.deliveryTo? l t).toList ++ later.filterMap (w.deliveryTo? l)) := by
    rw [queued, split, List.filterMap_append, List.filterMap_cons]
    cases w.deliveryTo? l t <;> rfl
  rw [h.receives, rest, List.filterMap_append, all]
  refine ⟨List.perm_append_comm_assoc .., fun order => ?_⟩
  cases delivers : w.isDelivery t with
  | false => simp [deliveryTo?_none delivers]
  | true =>
    -- nothing that is before the task is a delivery
    have found : w.ready.find? w.isDelivery = some t := order delivers
    rw [split, List.find?_append] at found
    have none : before.find? w.isDelivery = none := by
      cases other : before.find? w.isDelivery with
      | none => rfl
      | some u =>
        rw [other, Option.some_or, Option.some.injEq] at found
        exact absurd (found ▸ List.mem_of_find?_eq_some other) first
    have nothing : before.filterMap (w.deliveryTo? l) = [] :=
      List.filterMap_eq_nil_iff.mpr fun k hk =>
        deliveryTo?_none (Bool.eq_false_iff.mpr (List.find?_eq_none.mp none k hk)) l
    rw [nothing, List.nil_append, List.nil_append]

/-- At the outset of an act a listener is handed what takes its turn, and the rest waits on. -/
theorem queued_outset (ho : Outset w a b) (tidy : w.Tidy) (turn : InTurn (none, w))
    (h : Posted (none, w)) (hub : ∀ m, a ≠ .inbound l m) :
    (w.queued l).Perm (w.receives l a ++ b.2.queued l) ∧
      (w.InOrder a → w.queued l = w.receives l a ++ b.2.queued l) := by
  obtain ⟨q, ks, left, joined, fresh⟩ := joins_outset ho turn
  rcases left with ⟨noturn, rfl⟩ | ⟨t, rfl, rfl⟩
  · have old : ∀ k m, b.2.deliveryTo? l k = some m →
        k ∈ w.ready ∧ w.deliveryTo? l k = some m := by
      intro k m delivery
      obtain ⟨x, task, job⟩ := deliveryTo?_eq_some.mp delivery
      have before := (ho.delivery task job).resolve_right (hub m)
      exact ⟨(h.ready k x l m before job).2.resolve_right (by simp),
        deliveryTo?_eq_some.mpr ⟨x, before, job⟩⟩
    have kept : ∀ k ∈ w.ready, b.2.deliveryTo? l k = w.deliveryTo? l k := by
      refine fun k _ => Option.ext fun m => ⟨fun delivery => (old k m delivery).2,
        fun delivery => ?_⟩
      obtain ⟨x, task, job⟩ := deliveryTo?_eq_some.mp delivery
      exact deliveryTo?_eq_some.mpr ⟨x, ho.keeps_other tidy task (noturn k), job⟩
    have none : ks.filterMap (b.2.deliveryTo? l) = [] := by
      refine List.filterMap_eq_nil_iff.mpr fun k hk => Option.eq_none_iff_forall_ne_some.mpr ?_
      exact fun m delivery => fresh k hk (old k m delivery).1
    have idle : w.receives l a = [] := by
      cases a with
      | turn t => exact absurd rfl (noturn t)
      | command c => cases c <;> rfl
      | _ => rfl
    have same : b.2.queued l = w.queued l := by
      rw [queued, joined, List.filterMap_append, none, List.append_nil, List.filterMap_congr kept]
      rfl
    rw [idle, same]
    exact ⟨.refl _, fun _ => rfl⟩
  · have waits : t ∈ w.ready ∧
        b.2.queued l = (w.ready.erase t).filterMap (w.deliveryTo? l) := by
      have others : ∀ k ∈ w.ready.erase t, k ≠ t := fun k hk => (turn.nodup.mem_erase_iff.mp hk).1
      cases ho with
      | take t j ready task =>
        exact ⟨ready, List.filterMap_congr fun k hk => by simp [deliveryTo?, others k hk]⟩
      | discard t j ready task =>
        exact ⟨ready, List.filterMap_congr fun k hk => by simp [deliveryTo?, others k hk]⟩
      | stale t ready task => exact ⟨ready, rfl⟩
    rw [waits.2]
    exact queued_turn h waits.1

end World

end Switchboard
