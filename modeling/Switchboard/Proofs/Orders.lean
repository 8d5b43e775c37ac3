import Switchboard.Proofs.Closing
import Switchboard.Proofs.Deadlines
import Switchboard.Proofs.Queueing
import Switchboard.Proofs.Registries

/-! # Orders one after the other

A server adds a handler before it knows whether its listener can be registered and takes
it out again if not, so while an order is being carried out (`World.Underway`) the server
differs from its registry. But as long as orders are given one after the other
(`World.OneByOne`) the two agree whenever one has been carried out (`World.Carries.does`).
Main statement: `registry_is_map`.
-/

namespace Switchboard

open World

namespace World

variable {w v : World} {a b : Option TaskId × World} {t : TaskId} {s : ServerId} {d d' : Desk}
  {ds : List Deed} {o : Order} {r : Except Refusal Unit}

theorem sound_of_move (sound : ∀ d, a.2.desk? s = some d → d.Sound) (hm : Move a b) :
    ∀ d, b.2.desk? s = some d → d.Sound := by
  intro d desk
  obtain ⟨u, server, rfl⟩ := desk?_eq_some.mp desk
  obtain ⟨p, seat, moved⟩ := hm.seat (e := .server s) (q := u.seat) (by simp [seat?, server])
  obtain ⟨u₀, server₀, rfl⟩ := Option.map_eq_some_iff.mp seat
  have before := sound _ (desk?_eq_some.mpr ⟨u₀, server₀, rfl⟩)
  rcases hm.handlers s with same | ⟨t, m, h, u₁, -, -, server₁, vacant, added⟩ |
    ⟨t, j, m, h, u₁, st, -, -, -, handlers, removed, -⟩
  · have handlers : u.handlers = u₀.handlers := by simpa [handlersOf, server₀, server] using same
    have fewer : u.handlers.Sublist u₀.handlers := handlers ▸ List.Sublist.refl _
    exact before.of_sublist moved.grows.entity fewer
  · cases server₀.symm.trans server₁
    cases server.symm.trans added
    have admitted := u₀.admitted_of_vacant h vacant
    exact (before.of_added admitted).of_sublist rfl (List.Sublist.refl _)
  · cases server.symm.trans removed
    refine before.of_sublist moved.grows.entity ?_
    have same : u₀.handlers = u₁.handlers := by simpa [handlersOf, server₀] using handlers
    change (u₁.removeSame m h).handlers.Sublist u₀.handlers
    rw [same, Server.removeSame]
    split
    · exact List.filter_sublist
    · exact List.Sublist.refl _

theorem sound_of_outset {act : Act} (sound : ∀ d, w.desk? s = some d → d.Sound)
    (ho : Outset w act b) (tidy : w.Tidy) : ∀ d, b.2.desk? s = some d → d.Sound := by
  intro d desk
  by_cases quiet : w.order? s act = none
  · rcases ho.desk tidy quiet with same | ⟨-, e, ss, new⟩
    · exact sound d (same ▸ desk)
    · cases new.symm.trans desk
      exact ⟨List.nodup_nil, by simp⟩
  · obtain ⟨o, ordered⟩ := Option.ne_none_iff_exists'.mp quiet
    rcases order?_cases ordered with ⟨m, h, rfl⟩ | ⟨t, p, turn, -⟩
    · cases ho with
      | unserve s' u u' m' h' server unserved =>
        obtain ⟨u'', server', rfl⟩ := desk?_eq_some.mp desk
        obtain rfl : u' = u'' := by simpa [server] using server'
        have before := sound _ (desk?_eq_some.mpr ⟨u, server, rfl⟩)
        refine before.of_sublist (congrArg Seat.entity (unserve_seat unserved)) ?_
        rw [Server.unserve_eq] at unserved
        split at unserved
        · cases unserved
        · cases unserved
          exact List.filter_sublist
      | idle c same starts => exact sound d desk
    · exact sound d (ho.desk_of_start turn ▸ desk)

/-- **No method has two handlers**, and each is a method of the server's entity. -/
theorem sound_kept (s : ServerId) :
    Kept (fun _ _ => True) fun a => ∀ d, a.2.desk? s = some d → d.Sound :=
  ⟨fun tidy ho _ sound => sound_of_outset sound ho tidy, fun _ hm sound => sound_of_move sound hm⟩

/-- The task is running, or takes its turn now or when a timer runs out. -/
def Stirs (a : Option TaskId × World) (t : TaskId) : Prop :=
  a.1 = some t ∨ t ∈ a.2.ready ∨ ∃ due, ⟨due, t⟩ ∈ a.2.timers

theorem Stirs.slept (w : World) (t : TaskId) (ms : Nat) (j : Job) :
    Stirs (none, w.sleep t ms j) t :=
  .inr (.inr ⟨_, List.mem_append_right _ (List.mem_singleton_self _)⟩)

theorem Stirs.move {j : Job} (h : Stirs a t) (hm : Move a b) (turn : InTurn a)
    (idle : a.1 ≠ some t) (task : b.2.tasks.get? t = some ⟨j, false⟩) : Stirs b t := by
  rcases h with runs | ready | ⟨due, armed⟩
  · exact absurd runs idle
  · obtain ⟨ks, joined, -⟩ := joins_move hm turn
    exact .inr (.inl (joined ▸ List.mem_append_left _ ready))
  · exact .inr (.inr ⟨due, (hm.timer_iff idle ⟨_, task, rfl⟩).mpr armed⟩)

theorem Stirs.outset {act : Act} {j : Job} (h : Stirs (none, w) t) (ho : Outset w act b)
    (turn : InTurn (none, w)) (task : w.tasks.get? t = some ⟨j, false⟩) : Stirs b t := by
  rcases h with runs | ready | ⟨due, armed⟩
  · cases runs
  · obtain ⟨q, ks, left, joined, -⟩ := joins_outset ho turn
    have stays : t ∈ q → Stirs b t :=
      fun waits => .inr (.inl (joined ▸ List.mem_append_left _ waits))
    rcases left with ⟨-, rfl⟩ | ⟨k, rfl, rfl⟩
    · exact stays ready
    · by_cases own : t = k
      · subst own
        obtain ⟨running, -⟩ := turn?_of_outset ho
        exact .inl (by simpa [turn?, task] using running)
      · exact stays ((List.mem_erase_of_ne own).mpr ready)
  · rcases ho.time with ⟨due', -, -, rfl⟩ | ⟨-, -, timers⟩
    · by_cases now : due = due'
      · exact .inr (.inl (mem_fire.mpr (.inr (now ▸ armed))))
      · exact .inr (.inr ⟨due, by simp [fire, armed, now]⟩)
    · exact .inr (.inr ⟨due, timers ▸ armed⟩)

/-- What holds of a server's desk at any time, and of the tasks that come to it. -/
structure Steady (a : Option TaskId × World) (s : ServerId) : Prop where
  inTurn : InTurn a
  results : a.2.Results
  seated : a.2.Seated
  sound : ∀ d, a.2.desk? s = some d → d.Sound

theorem Steady.new (s : ServerId) (h : w.IsNew) : Steady (none, w) s := by
  refine ⟨.new h, .new h, .new h, fun d desk => ?_⟩
  obtain ⟨wall, ids, rfl⟩ := h
  cases desk

theorem Steady.kept (s : ServerId) : Kept (fun _ _ => True) fun a => Steady a s where
  outset tidy ho known h :=
    ⟨InTurn.kept.outset tidy ho known h.inTurn, Results.kept.outset tidy ho known h.results,
      Seated.kept.outset tidy ho known h.seated, (sound_kept s).outset tidy ho known h.sound⟩
  move tidy hm h :=
    ⟨InTurn.kept.move tidy hm h.inTurn, Results.kept.move tidy hm h.results,
      Seated.kept.move tidy hm h.seated, (sound_kept s).move tidy hm h.sound⟩

theorem steady_after (s : ServerId) (new : w.IsNew) {as : List Act} (run : w.CanRun as) :
    (w.after as).Tidy ∧ Steady (none, w.after as) s :=
  (Steady.kept s).run run (run.mono fun _ _ _ => trivial) (.new new) (.new s new)

/-! ## An order that is being carried out -/

/-- How far a task is with an order of a server that had the desk before. -/
inductive Underway (a : Option TaskId × World) (t : TaskId) (s : ServerId) (d : Desk) (o : Order) :
    Prop
  | begun (p : Operation) (ordered : (Job.start p).order? s = some o) (runs : a.1 = some t)
      (task : a.2.tasks.get? t = some ⟨.start p, false⟩) (desk : a.2.desk? s = some d)
  /-- The handler has been added. -/
  | added (m : Address) (h : Handler) (order : o = .serve m h)
      (admitted : d.registry.refusal? d.entity (.serve m h) = none) (runs : a.1 = some t)
      (task : a.2.tasks.get? t = some ⟨.prepare (.serve s m h), false⟩)
      (desk : a.2.desk? s = some (d.add m h))
  /-- The link is asked to register the listener. -/
  | asking (m : Address) (h : Handler) (l : LinkId) (source : Address) (sink : Option Address)
      (listener : Listener) (order : o = .serve m h)
      (admitted : d.registry.refusal? d.entity (.serve m h) = none) (vacant : d.cell = .vacant)
      (task : a.2.tasks.get? t =
        some ⟨.register l source sink listener (.use (.serve s m h)), false⟩)
      (stirs : Stirs a t) (desk : a.2.desk? s = some { d.add m h with cell := .attempting [] })
  /-- The link is asked to unregister the listener. -/
  | leaving (l : LinkId) (source : Address) (sink : Option Address) (listener : Listener)
      (order : o = .close) (opened : d.closed = false) (registered : d.cell = .registered)
      (task : a.2.tasks.get? t =
        some ⟨.unregister l source sink listener (.report .listening), false⟩)
      (stirs : Stirs a t) (desk : a.2.desk? s = some { d with closed := true })
  | done (x : Deed) (d' : Desk) (order : x.order = o) (finished : a.2.Finished t x.result)
      (does : d.Does x d') (desk : a.2.desk? s = some d')

/-- The first move of an order to add a handler. -/
theorem underway_of_serve {m : Address} {h : Handler} (settled : d.Settled) (hm : Move a b)
    (runs : a.1 = some t) (task : a.2.tasks.get? t = some ⟨.start (.serve s m h), false⟩)
    (desk : a.2.desk? s = some d) : Underway b t s d (.serve m h) := by
  obtain ⟨u, server, rfl⟩ := desk?_eq_some.mp desk
  obtain ⟨w, rfl, free, ⟨f, refused, rfl⟩ | ⟨vacant, rfl⟩⟩ := hm.serving runs task server
  · have refused := u.refused_of_vacant h refused
    refine .done _ _ rfl (has_record.mpr (.inl rfl)) (.refused settled refused) ?_
    simpa [Event.attempt?] using desk
  · refine .added m h rfl (u.admitted_of_vacant h vacant) rfl (park_self ..) ?_
    rw [park_desk?, modifyServer_desk? w (·.addHandler m h) (fun _ => rfl) server]
    rfl

/-- The second one, with the handler added. -/
theorem underway_of_prepare {m : Address} {h : Handler} (settled : d.Settled)
    (admitted : d.registry.refusal? d.entity (.serve m h) = none) (hm : Move a b)
    (runs : a.1 = some t) (task : a.2.tasks.get? t = some ⟨.prepare (.serve s m h), false⟩)
    (desk : a.2.desk? s = some (d.add m h)) : Underway b t s d (.serve m h) := by
  obtain ⟨u, server, same⟩ := desk?_eq_some.mp desk
  have cell : u.seat.cell = d.cell := congrArg Desk.cell same
  obtain ⟨w, rfl, free, ⟨registered, rfl⟩ | ⟨vacant, rfl⟩ | ⟨ws, attempting⟩⟩ :=
    hm.preparing (p := u.seat) runs task (by simp [seat?, Use.engine, server])
  · refine .done _ _ rfl (has_record.mpr (.inl rfl)) (.found admitted (cell ▸ registered)) ?_
    change (w.record (.finished t (.ok ()))).desk? s = _
    simpa [Event.attempt?] using desk
  · refine .asking m h _ _ _ _ rfl admitted (cell ▸ vacant) (park_self ..) (.inl rfl) ?_
    exact (setCell_desk? w _).trans (congrArg _ desk)
  · exact absurd (cell ▸ attempting) (settled ws)

/-- The last ones, in which the link answers. -/
theorem underway_of_register {m : Address} {h : Handler} {l : LinkId} {source : Address}
    {sink : Option Address} {listener : Listener}
    (admitted : d.registry.refusal? d.entity (.serve m h) = none) (vacant : d.cell = .vacant)
    (hm : Move a b) (runs : a.1 = some t) (task : a.2.tasks.get? t =
      some ⟨.register l source sink listener (.use (.serve s m h)), false⟩)
    (desk : a.2.desk? s = some { d.add m h with cell := .attempting [] }) :
    Underway b t s d (.serve m h) := by
  obtain ⟨w, rfl, free, rfl | ⟨hub, rfl⟩ | ⟨st, rfl⟩⟩ := hm.registering runs task
  · exact .asking m h l source sink listener rfl admitted vacant (sleep_self ..) (.slept ..) desk
  · refine .done _ _ rfl (has_record.mpr (.inl rfl)) (.enrolled admitted (by simp [vacant])) ?_
    have told : ({ w with hub := hub }.record (.attempted (.server s) (.ok ()))).desk? s =
        some { d.add m h with cell := .attempting [], attempts := d.attempts ++ [.ok ()] } := by
      rw [park_desk?] at desk
      simp [desk, Event.attempt?, Desk.add]
    rw [record_desk?, settleCell_desk? _ told rfl]
    simp [Event.attempt?, Except.isOk, Except.toBool]
  · refine .done _ _ rfl (has_record.mpr (.inl rfl)) (.failed admitted vacant st) ?_
    have told : (w.record (.attempted (.server s) (.error st))).desk? s =
        some { d.add m h with cell := .attempting [], attempts := d.attempts ++ [.error st] } := by
      rw [park_desk?] at desk
      simp [desk, Event.attempt?, Desk.add]
    -- nobody else waits for the attempt, so the cell is vacant when the handler is taken out
    have back := settleCell_desk? (.error st) told rfl
    obtain ⟨u, server, same⟩ := desk?_eq_some.mp back
    have handlers : u.handlers = (m, h) :: d.handlers := congrArg Desk.handlers same
    have taken : (u.removeSame m h).handlers = d.handlers :=
      Server.removeSame_of_added handlers
        (Desk.lookup_eq_none.mp (Registry.refusal?_serve_eq_none.mp admitted).2.2)
    rw [record_desk?, modifyServer_desk? _ _ (fun v => removeSame_seat v m h) server, same, taken]
    simp [Event.attempt?, Except.isOk, Except.toBool, Desk.add, vacant]

/-- The first move of an order to close. -/
theorem underway_of_close (settled : d.Settled) (hm : Move a b) (runs : a.1 = some t)
    (task : a.2.tasks.get? t = some ⟨.start (.close (.server s)), false⟩)
    (desk : a.2.desk? s = some d) : Underway b t s d .close := by
  obtain ⟨u, server, same⟩ := desk?_eq_some.mp desk
  have cell : u.seat.cell = d.cell := congrArg Desk.cell same
  have flag : u.seat.closed = d.closed := congrArg Desk.closed same
  obtain ⟨w, rfl, free, ⟨closed, rfl⟩ | ⟨opened, registered, rfl⟩ | ⟨opened, deaf, rfl⟩⟩ :=
    hm.closing (p := u.seat) runs task (by simp [seat?, server])
  · refine .done _ _ rfl (has_record.mpr (.inl rfl)) (.closedBefore settled (flag ▸ closed)) ?_
    simpa [Event.attempt?] using desk
  · exact .leaving _ _ _ _ rfl (flag ▸ opened) (cell ▸ registered) (park_self ..)
      (.inl rfl) ((shut_desk? w).trans (congrArg _ desk))
  · refine .done _ _ rfl (has_record.mpr (.inl rfl)) (.deaf settled (cell ▸ deaf)) ?_
    rw [park_desk?] at desk
    simp [shut_desk?, desk, Event.attempt?]

/-- The last ones, in which the link answers. -/
theorem underway_of_unregister {l : LinkId} {source : Address} {sink : Option Address}
    {listener : Listener} (opened : d.closed = false) (registered : d.cell = .registered)
    (hm : Move a b) (runs : a.1 = some t) (task : a.2.tasks.get? t =
      some ⟨.unregister l source sink listener (.report .listening), false⟩)
    (desk : a.2.desk? s = some { d with closed := true }) : Underway b t s d .close := by
  obtain ⟨w, rfl, -, rfl | ⟨st, -, rfl⟩ | ⟨hub, -, rfl⟩⟩ := hm.unregisters runs task
  · exact .leaving l source sink listener rfl opened registered (sleep_self ..) (.slept ..) desk
  · refine .done _ _ rfl (has_recordAll.mpr (.inl (List.mem_singleton.mpr rfl)))
      (.left opened registered (.error st)) ?_
    change (w.record (.finished t (.error (.failure (.transport st))))).desk? s = _
    rw [park_desk?] at desk
    simp [desk, Event.attempt?]
  · refine .done _ _ rfl (has_recordAll.mpr (.inl (List.mem_singleton.mpr rfl)))
      (.left opened registered (.ok ())) ?_
    change ({ w with hub := hub }.record (.finished t (.ok ()))).desk? s = _
    rw [park_desk?] at desk
    simp [desk, Event.attempt?]

/-- Every move of the task goes on with the order. -/
theorem Underway.of_own (h : Underway a t s d o) (settled : d.Settled) (hm : Move a b)
    (runs : a.1 = some t) (results : a.2.Results) : Underway b t s d o := by
  cases h with
  | begun p ordered _ task desk =>
    cases o with
    | serve m h =>
      cases Job.order?_eq_serve.mp ordered
      exact underway_of_serve settled hm runs task desk
    | unserve m h => cases p <;> simp [Job.order?] at ordered
    | close =>
      cases Job.order?_eq_close.mp ordered
      exact underway_of_close settled hm runs task desk
  | added m h order admitted _ task desk =>
    subst order
    exact underway_of_prepare settled admitted hm runs task desk
  | asking m h l source sink listener order admitted vacant task stirs desk =>
    subst order
    exact underway_of_register admitted vacant hm runs task desk
  | leaving l source sink listener order opened registered task stirs desk =>
    subst order
    exact underway_of_unregister opened registered hm runs task desk
  | done x d' order finished does desk =>
    obtain ⟨w, j, rfl⟩ := hm.runs runs
    exact absurd finished (results.waiting t _ (park_self w t j) _)

/-- A move of any other task leaves the order where it is. -/
theorem Underway.of_other (h : Underway a t s d o) (hm : Move a b) (runs : a.1 ≠ some t)
    (apart : Apart a (some t) s) (tidy : a.2.Tidy) (turn : InTurn a) : Underway b t s d o := by
  have same : b.2.desk? s = a.2.desk? s :=
    apart.desk hm fun k hk => by rwa [← Option.some.inj hk]
  cases h with
  | begun p ordered own task desk => exact absurd own runs
  | added m h order admitted own task desk => exact absurd own runs
  | asking m h l source sink listener order admitted vacant task stirs desk =>
    have task' := turn.wakeful.keeps hm tidy task runs rfl
    exact .asking m h l source sink listener order admitted vacant task'
      (stirs.move hm turn runs task') (same.trans desk)
  | leaving l source sink listener order opened registered task stirs desk =>
    have task' := turn.wakeful.keeps hm tidy task runs rfl
    exact .leaving l source sink listener order opened registered task'
      (stirs.move hm turn runs task') (same.trans desk)
  | done x d' order finished does desk =>
    exact .done x d' order (finished.of_suffix hm.grows.events) does (same.trans desk)

theorem Underway.outset {act : Act} (h : Underway (none, w) t s d o) (ho : Outset w act b)
    (tidy : w.Tidy) (turn : InTurn (none, w)) (quiet : w.order? s act = none) :
    Underway b t s d o := by
  have same : ∀ {d' : Desk}, w.desk? s = some d' → b.2.desk? s = some d' := by
    intro d' desk
    rcases ho.desk tidy quiet with same | ⟨missing, -⟩
    · rw [same, desk]
    · cases missing.symm.trans desk
  have stays : ∀ {j : Job}, w.tasks.get? t = some ⟨j, false⟩ →
      b.2.tasks.get? t = some ⟨j, false⟩ := fun task =>
    (ho.stays tidy task).resolve_right fun ⟨cancelled, _⟩ => by cases cancelled
  cases h with
  | begun p ordered own task desk => cases own
  | added m h order admitted own task desk => cases own
  | asking m h l source sink listener order admitted vacant task stirs desk =>
    exact .asking m h l source sink listener order admitted vacant (stays task)
      (stirs.outset ho turn task) (same desk)
  | leaving l source sink listener order opened registered task stirs desk =>
    exact .leaving l source sink listener order opened registered (stays task)
      (stirs.outset ho turn task) (same desk)
  | done x d' order finished does desk =>
    exact .done x d' order (finished.of_suffix (ho.grows tidy).events) does (same desk)

theorem Underway.kept (settled : d.Settled) : Kept (fun w a => w.order? s a = none) fun a =>
    Steady a s ∧ Apart a (some t) s ∧ Underway a t s d o :=
  ((Steady.kept s).mono fun _ _ _ => trivial).add
    (fun tidy ho quiet steady _ h =>
      ⟨h.1.outset ho quiet, h.2.outset ho tidy steady.inTurn quiet⟩)
    (fun {a _} tidy hm steady _ h => by
      refine ⟨h.1.move hm tidy, ?_⟩
      by_cases runs : a.1 = some t
      · exact h.2.of_own settled hm runs steady.results
      · exact h.2.of_other hm runs h.1 tidy steady.inTurn)

/-- The outset of an act in which an order is given to a task that starts. -/
theorem Underway.start {act : Act} {p : Operation} (ho : Outset w act b)
    (turn : w.turn? act = some (t, .start p)) (ordered : (Job.start p).order? s = some o)
    (apart : Apart (none, w) none s) (desk : w.desk? s = some d) :
    Apart b (some t) s ∧ Underway b t s d o := by
  obtain ⟨running, hand⟩ := turn?_of_outset ho
  rw [turn, Option.map_some] at running
  refine ⟨⟨fun k x u task use own => ?_, fun k x runs _ _ => running.symm.trans runs⟩,
    .begun p ordered running (hand t _ turn) ((ho.desk_of_start turn).trans desk)⟩
  cases apart.asks k x u (ho.asked task use own) use own

/-! ## Orders one after the other -/

/-- A task begins to carry an order of the server out. -/
def BeginsOrder (w : World) (s : ServerId) (a : Act) (t : TaskId) (o : Order) : Prop :=
  ∃ p, w.turn? a = some (t, .start p) ∧ (Job.start p).order? s = some o

def Unordered (w : World) (s : ServerId) : List Act → Prop :=
  Along (fun v a => v.order? s a = none) w

instance (w : World) (s : ServerId) (as : List Act) : Decidable (w.Unordered s as) :=
  inferInstanceAs (Decidable (Along _ w as))

/-- The server is given an order and carries it out, and no other meanwhile. -/
inductive Carries (w : World) (s : ServerId) : Deed → World → Prop
  | unserve (m : Address) (h : Handler)
      (possible : (Act.command (.unserve s m h)).IsPossible w) :
      Carries w s ⟨.unserve m h, [], (w.unserve s m h).1.mapError .failure⟩
        (w.act (.command (.unserve s m h)))
  | task (a : Act) (as : List Act) (t : TaskId) (o : Order)
      (ss : List (Except Status Unit)) (r : Except Refusal Unit) (run : w.CanRun (a :: as))
      (begins : w.BeginsOrder s a t o) (alone : (w.act a).Unordered s as)
      (ended : (w.after (a :: as)).Finished t r)
      (attempts : (w.after (a :: as)).attempts (.server s) = w.attempts (.server s) ++ ss) :
      Carries w s ⟨o, ss, r⟩ (w.after (a :: as))

/-- The server does the deeds one after the other. Anything else may happen between two of them. -/
inductive OneByOne (w : World) (s : ServerId) : List Deed → World → Prop
  | start : OneByOne w s [] w
  | aside {ds : List Deed} {v : World} (before : OneByOne w s ds v) (a : Act)
      (possible : a.IsPossible v) (quiet : v.order? s a = none) : OneByOne w s ds (v.act a)
  | deed {ds : List Deed} {v v' : World} {x : Deed} (before : OneByOne w s ds v)
      (carries : v.Carries s x v') : OneByOne w s (ds ++ [x]) v'

theorem OneByOne.asides {as : List Act} (h : w.OneByOne s ds v) (run : v.CanRun as)
    (quiet : v.Unordered s as) : w.OneByOne s ds (v.after as) := by
  induction as generalizing v with
  | nil => exact h
  | cons a as ih => exact ih (h.aside a run.1 quiet.1) run.2 quiet.2

theorem Seated.desk {a : Act} (h : w.Seated) (possible : a.IsPossible w)
    (begins : w.BeginsOrder s a t o) : ∃ d, w.desk? s = some d := by
  obtain ⟨p, turn, ordered⟩ := begins
  have engine : p.engine? = some (.server s) := by
    cases o with
    | serve m h =>
      cases Job.order?_eq_serve.mp ordered
      rfl
    | unserve m h => cases p <;> simp [Job.order?] at ordered
    | close =>
      cases Job.order?_eq_close.mp ordered
      rfl
  have seat : ∃ q, w.seat? (.server s) = some q := by
    rcases turn?_cases turn with ⟨-, task⟩ | ⟨p', rfl, -, start⟩
    · exact h _ ⟨_, ⟨t, _, task, rfl⟩, engine⟩
    · cases start
      have owned : w.isOwned (.server s) = true := by
        simpa [Act.IsPossible, Command.isAllowed, Command.engine?, engine] using possible
      obtain ⟨q, seat, -⟩ := seat_of_owned owned
      exact ⟨q, seat⟩
  obtain ⟨q, seat⟩ := seat
  obtain ⟨v, server, -⟩ := Option.map_eq_some_iff.mp seat
  exact ⟨_, desk?_eq_some.mpr ⟨v, server, rfl⟩⟩

/-- The order after its first act. -/
theorem underway_of_act {a : Act} (tidy : w.Tidy) (steady : Steady (none, w) s)
    (apart : Apart (none, w) none s) (settled : d.Settled) (desk : w.desk? s = some d)
    (possible : a.IsPossible w) (begins : w.BeginsOrder s a t o) :
    (w.act a).Tidy ∧ Steady (none, w.act a) s ∧ Apart (none, w.act a) (some t) s ∧
      Underway (none, w.act a) t s d o := by
  obtain ⟨p, turn, ordered⟩ := begins
  obtain ⟨b, ho, hm⟩ := act_moves tidy.tasks possible
  exact (Underway.kept settled).moves hm (tidy.outset ho)
    ⟨(Steady.kept s).outset tidy ho trivial steady, Underway.start ho turn ordered apart desk⟩

/-- Between two acts the task waits for the link, or the order has been carried out. -/
theorem Underway.waits (h : Underway (none, w) t s d o) :
    (d.registry.asks d.entity o = true ∧ Stirs (none, w) t ∧ ∃ x, w.tasks.get? t = some x) ∨
      ∃ x d', x.order = o ∧ w.Finished t x.result ∧ d.Does x d' ∧ w.desk? s = some d' := by
  cases h with
  | begun p ordered own task desk => cases own
  | added m h order admitted own task desk => cases own
  | asking m h l source sink listener order admitted vacant task stirs desk =>
    subst order
    have deaf : d.registry.listening = false := by simp [Desk.registry, vacant]
    exact .inl ⟨by simp [Registry.asks, admitted, deaf], stirs, _, task⟩
  | leaving l source sink listener order opened registered task stirs desk =>
    subst order
    have asks : d.registry.asks d.entity .close = true := by
      simp [Registry.asks, Registry.refusal?, Desk.registry, opened, registered]
    exact .inl ⟨asks, stirs, _, task⟩
  | done x d' order finished does desk => exact .inr ⟨x, d', order, finished, does, desk⟩

/-- An order is carried out in its first act unless the link is asked. -/
theorem Underway.answered (h : Underway (none, w) t s d o)
    (spared : d.registry.asks d.entity o = false) : ∃ r, w.Finished t r := by
  rcases h.waits with ⟨asks, -⟩ | ⟨x, -, -, finished, -⟩
  · cases asks.symm.trans spared
  · exact ⟨_, finished⟩

/-- Unless the world has more to do, it has been. -/
theorem Underway.ended (h : Underway (none, w) t s d o) (ready : w.ready = [])
    (timers : w.timers = []) : ∃ r, w.Finished t r := by
  rcases h.waits with ⟨-, stirs, -⟩ | ⟨x, -, -, finished, -⟩
  · simp [Stirs, ready, timers] at stirs
  · exact ⟨_, finished⟩

/-- When it has its result, it is carried out. -/
theorem Underway.does (h : Underway (none, w) t s d o) (results : w.Results)
    (ended : w.Finished t r) : ∃ ss d', d.Does ⟨o, ss, r⟩ d' ∧ w.desk? s = some d' := by
  rcases h.waits with ⟨-, -, x, task⟩ | ⟨⟨o', ss, r'⟩, d', rfl, finished, does, desk⟩
  · exact absurd ended (results.waiting t x task r)
  · cases results.once t r r' ended finished
    exact ⟨ss, d', does, desk⟩

end World

structure Desk.Agrees (d : Desk) (ds : List Deed) : Prop where
  settled : d.Settled
  after : Registry.After d.entity ds d.registry
  count : d.handlers.length + ds.countP Deed.removes = ds.countP Deed.adds

theorem Desk.Agrees.new (e : Address) (ss : List (Except Status Unit)) :
    Desk.Agrees ⟨e, [], false, .vacant, ss⟩ [] :=
  ⟨by simp [Settled], .nothing, rfl⟩

theorem Desk.Agrees.next {d d' : Desk} {ds : List Deed} {x : Deed} (h : d.Agrees ds)
    (does : d.Does x d') : d'.Agrees (ds ++ [x]) := by
  obtain ⟨link, obeys⟩ := does.obeys
  have after := h.after.next link x.order
  rw [obeys, ← does.entity] at after
  refine ⟨does.settled, after, ?_⟩
  have before := h.count
  have now := does.count
  rw [List.countP_append, List.countP_append]
  omega

namespace World

variable {w v : World} {s : ServerId} {ds : List Deed} {x : Deed}

/-- No order is being carried out, and the server agrees with the deeds. -/
structure Between (a : Option TaskId × World) (s : ServerId) (ds : List Deed) : Prop where
  apart : Apart a none s
  agrees : ∀ d, a.2.desk? s = some d → d.Agrees ds
  unknown : a.2.desk? s = none → ds = []

theorem Between.new (s : ServerId) (h : w.IsNew) : Between (none, w) s [] := by
  obtain ⟨wall, ids, rfl⟩ := h
  refine ⟨⟨?_, ?_⟩, ?_, fun _ => rfl⟩
  · rintro k x u ⟨⟩
  · rintro k x ⟨⟩
  · rintro d ⟨⟩

theorem Between.kept (s : ServerId) (ds : List Deed) :
    Kept (fun w a => w.order? s a = none) fun a => Between a s ds where
  outset {w a b} tidy ho quiet h := by
    refine ⟨h.apart.outset ho quiet, fun d desk => ?_, fun missing => ?_⟩
    all_goals rcases ho.desk tidy quiet with same | ⟨none, e, ss, new⟩
    · exact h.agrees d (same ▸ desk)
    · rw [h.unknown none]
      cases new.symm.trans desk
      exact .new e ss
    · exact h.unknown (same ▸ missing)
    · exact h.unknown none
  move {a b} tidy hm h := by
    have same := h.apart.desk hm fun k none => by cases none
    exact ⟨h.apart.move hm tidy, fun d desk => h.agrees d (same ▸ desk),
      fun missing => h.unknown (same ▸ missing)⟩

/-- A handler is taken away, or not, at once. -/
theorem does_unserve {m : Address} {h : Handler} {u : Server} (server : w.servers.get? s = some u)
    (settled : (u.desk (w.attempts (.server s))).Settled)
    (sound : (u.desk (w.attempts (.server s))).Sound) :
    ∃ d', (u.desk (w.attempts (.server s))).Does
        ⟨.unserve m h, [], (w.unserve s m h).1.mapError .failure⟩ d' ∧
      (w.unserve s m h).2.desk? s = some d' := by
  cases refused : u.registry.refusal? u.seat.entity (.unserve m h) with
  | some f =>
    simp only [World.unserve, server, u.unserve_eq, refused]
    exact ⟨_, .refused settled refused, desk?_eq_some.mpr ⟨u, server, rfl⟩⟩
  | none =>
    simp only [World.unserve, server, u.unserve_eq, refused]
    exact ⟨_, .unserved settled sound refused, by simp [desk?, server]⟩

/-- **An order is carried out as the registry has it.** -/
theorem Carries.does (h : w.Carries s x v) (tidy : w.Tidy) (steady : Steady (none, w) s)
    (between : Between (none, w) s ds) :
    Apart (none, v) none s ∧ ∃ d d', w.desk? s = some d ∧ d.Does x d' ∧ v.desk? s = some d' := by
  cases h with
  | unserve m h possible =>
    have owned : w.isOwned (.server s) = true := by
      simpa [Act.IsPossible, Command.isAllowed, Command.engine?] using possible
    obtain ⟨q, seat, -⟩ := seat_of_owned owned
    obtain ⟨u, server, -⟩ := Option.map_eq_some_iff.mp seat
    have desk := desk?_eq_some.mpr ⟨u, server, rfl⟩
    obtain ⟨d', does, desk'⟩ :=
      does_unserve server (m := m) (h := h) (between.agrees _ desk).settled (steady.sound _ desk)
    have tasks : (w.unserve s m h).2.tasks = w.tasks := by
      simp only [World.unserve, server]
      split <;> rfl
    refine ⟨⟨fun k x u task use own => ?_, fun k x runs => by cases runs⟩, _, d', desk, does, desk'⟩
    exact between.apart.asks k x u (tasks ▸ task) use own
  | task a as t o ss r run begins alone ended attempts =>
    obtain ⟨d, desk⟩ := steady.seated.desk run.1 begins
    have settled := (between.agrees d desk).settled
    obtain ⟨tidy', begun⟩ :=
      underway_of_act tidy steady between.apart settled desk run.1 begins
    obtain ⟨-, steady', apart, underway⟩ := (Underway.kept settled).run run.2 alone tidy' begun
    obtain ⟨ss', d', does, desk'⟩ := underway.does steady'.results ended
    refine ⟨⟨fun k x u task use own => ?_, fun k x runs => by cases runs⟩, d, d', desk, ?_, desk'⟩
    · cases apart.asks k x u task use own
      exact absurd ended (steady'.results.waiting t x task r)
    · -- the attempts for its sake are those by which the server's have grown
      have after := does.attempts
      rw [desk?_attempts desk, desk?_attempts desk'] at after
      obtain rfl : ss = ss' := List.append_cancel_left (attempts.symm.trans after)
      exact does

/-- Then the server agrees with one deed more. -/
theorem Between.next (between : Between (none, w) s ds) (tidy : w.Tidy)
    (steady : Steady (none, w) s) (carries : w.Carries s x v) :
    Between (none, v) s (ds ++ [x]) := by
  obtain ⟨apart, d, d', desk, does, desk'⟩ := carries.does tidy steady between
  refine ⟨apart, fun d'' other => ?_, fun missing => ?_⟩
  · cases desk'.symm.trans other
    exact (between.agrees d desk).next does
  · cases desk'.symm.trans missing

theorem Carries.run (h : w.Carries s x v) : ∃ as, w.CanRun as ∧ v = w.after as := by
  cases h with
  | unserve m h possible => exact ⟨[_], ⟨possible, trivial⟩, rfl⟩
  | task a as t o ss r run begins alone ended attempts => exact ⟨a :: as, run, rfl⟩

/-- **A server whose orders are carried out one after the other** agrees with what it has done. -/
theorem OneByOne.between (new : w.IsNew) (h : w.OneByOne s ds v) :
    (∃ as, w.CanRun as ∧ v = w.after as) ∧ Between (none, v) s ds := by
  induction h with
  | start => exact ⟨⟨[], trivial, rfl⟩, .new s new⟩
  | aside before a possible quiet ih =>
    obtain ⟨⟨as, run, rfl⟩, between⟩ := ih
    obtain ⟨tidy, -⟩ := steady_after s new run
    refine ⟨⟨as ++ [a], Along.append.mpr ⟨run, possible, trivial⟩, by simp⟩, ?_⟩
    exact ((Between.kept s _).act possible quiet tidy between).2
  | deed before carries ih =>
    obtain ⟨⟨as, run, rfl⟩, between⟩ := ih
    obtain ⟨tidy, steady⟩ := steady_after s new run
    obtain ⟨bs, run', rfl⟩ := carries.run
    exact ⟨⟨as ++ bs, Along.append.mpr ⟨run, run'⟩, (after_append ..).symm⟩,
      between.next tidy steady carries⟩

end World

/-- **The handlers of a server are a map.** When orders have been carried out one after the other,
whatever the link said, the server's registry is what the rules of `Registry.obey` make of the empty
one, and it has a handler for each that was added and not taken away. Each further order does to it
what the rules say, and nothing to its handlers if it fails. It is carried out at once unless the
link is asked, and then by the time that the world has nothing left to do. At no time does a method
have two handlers, and no address is served that is not a method of the server's entity. -/
theorem registry_is_map {w v : World} {s : ServerId} {deeds : List Deed} {u : Server}
    (new : w.IsNew) (orders : w.OneByOne s deeds v) (server : v.servers.get? s = some u) :
    Registry.After u.seat.entity deeds u.registry ∧
      u.handlers.length + deeds.countP Deed.removes = deeds.countP Deed.adds ∧
      (∀ x v', v.Carries s x v' → ∃ u' link, v'.servers.get? s = some u' ∧
        u'.seat.entity = u.seat.entity ∧
        u.registry.obey u.seat.entity link x.order = (x, u'.registry) ∧
        ∀ e, x.result = .error e → u'.registry.serves = u.registry.serves) ∧
      (∀ a as t o, v.CanRun (a :: as) → v.BeginsOrder s a t o → (v.act a).Unordered s as →
        (u.registry.asks u.seat.entity o = false → ∃ r, (v.act a).Finished t r) ∧
        ((v.after (a :: as)).ready = [] → (v.after (a :: as)).timers = [] →
          ∃ r, (v.after (a :: as)).Finished t r)) ∧
      ∀ as, w.CanRun as → ∀ u', (w.after as).servers.get? s = some u' →
        (u'.handlers.map (·.1)).Nodup ∧ ∀ e ∈ u'.handlers, e.1.IsMethodOf u'.seat.entity := by
  obtain ⟨⟨as, run, rfl⟩, between⟩ := orders.between new
  obtain ⟨tidy, steady⟩ := steady_after s new run
  have desk := desk?_eq_some.mpr ⟨u, server, rfl⟩
  have agrees := between.agrees _ desk
  refine ⟨agrees.after, agrees.count, fun x v' carries => ?_,
    fun a bs t o run' begins alone => ?_, fun bs run' u' server' => ?_⟩
  · obtain ⟨-, d, d', desk₁, does, desk'⟩ := carries.does tidy steady between
    cases desk.symm.trans desk₁
    obtain ⟨u', server', rfl⟩ := desk?_eq_some.mp desk'
    obtain ⟨link, obeys⟩ := does.obeys
    refine ⟨u', link, server', does.entity, obeys, fun e failed => ?_⟩
    have kept := Registry.serves_of_failed ((congrArg (·.1.result) obeys).trans failed)
    rw [obeys] at kept
    exact kept
  · obtain ⟨tidy', begun⟩ :=
      underway_of_act tidy steady between.apart agrees.settled desk run'.1 begins
    obtain ⟨-, -, -, underway⟩ := (Underway.kept agrees.settled).run run'.2 alone tidy' begun
    exact ⟨begun.2.2.answered, underway.ended⟩
  · have sound := (steady_after s new run').2.sound _ (desk?_eq_some.mpr ⟨u', server', rfl⟩)
    exact ⟨sound.nodup, sound.methods⟩

/-- A handler that could not be added since the listener was refused is added later, and taken away
when the server has been closed. -/
theorem registry_of_closed_server :
    let ids : MessageId.Source := { issue := fun n => .stamped 1 (BitVec.ofNat 74 n) }
    let method : Address := ⟨"server", 2, 1, 1⟩
    let echo : Handler := ⟨0, 0, fun m => .returned m.payload⟩
    let down : Status := ⟨.unavailable, "down"⟩
    let w : World := { wall := 0, ids := ids }
    let deeds : List Deed :=
      [⟨.serve method echo, [.error down], .error (.failure (.transport down))⟩,
        ⟨.serve method echo, [.ok ()], .ok ()⟩, ⟨.close, [], .ok ()⟩,
        ⟨.unserve method echo, [], .ok ()⟩]
    ∃ v u, w.IsNew ∧ w.OneByOne 0 deeds v ∧ v.servers.get? 0 = some u ∧
      Registry.After u.seat.entity deeds u.registry ∧ u.handlers.length = 0 := by
  intro ids method echo down w deeds
  let v₁ := w.after [.command (.addLink ⟨"server", 2, 1, 0⟩), .command (.addServer 0),
    .command (.setFault 0 .register ⟨10, some down⟩)]
  have begun : w.OneByOne 0 [] v₁ :=
    OneByOne.start.asides (by decide +kernel) (by decide +kernel)
  let v₂ := v₁.after [.command (.enter (.serve 0 method echo)), .fire 10, .turn 0]
  have refused : v₁.Carries 0
      ⟨.serve method echo, [.error down], .error (.failure (.transport down))⟩ v₂ :=
    .task _ [.fire 10, .turn 0] _ _ _ _ (by decide +kernel) ⟨_, rfl, rfl⟩ (by decide +kernel)
      (finished_of_result? (by decide +kernel)) (by decide +kernel)
  let v₃ := v₂.after [.command (.setFault 0 .register ⟨0, none⟩)]
  have changed : w.OneByOne 0 _ v₃ :=
    (begun.deed refused).asides (by decide +kernel) (by decide +kernel)
  let v₄ := v₃.after [.command (.enter (.serve 0 method echo))]
  have added : v₃.Carries 0 ⟨.serve method echo, [.ok ()], .ok ()⟩ v₄ :=
    .task _ [] _ _ _ _ (by decide +kernel) ⟨_, rfl, rfl⟩ (by decide +kernel)
      (finished_of_result? (by decide +kernel)) (by decide +kernel)
  let v₅ := v₄.after [.command (.enter (.close (.server 0)))]
  have closed : v₄.Carries 0 ⟨.close, [], .ok ()⟩ v₅ :=
    .task _ [] _ _ _ _ (by decide +kernel) ⟨_, rfl, rfl⟩ (by decide +kernel)
      (finished_of_result? (by decide +kernel)) (by decide +kernel)
  let v₆ := v₅.act (.command (.unserve 0 method echo))
  have told : (v₅.unserve 0 method echo).1.mapError Refusal.failure = .ok () := by decide +kernel
  have removed : v₅.Carries 0 ⟨.unserve method echo, [], .ok ()⟩ v₆ :=
    told ▸ .unserve method echo (by decide +kernel)
  have new : w.IsNew := ⟨0, ids, rfl⟩
  have orders : w.OneByOne 0 deeds v₆ := ((changed.deed added).deed closed).deed removed
  have there : (v₆.servers.get? 0).isSome = true := by decide +kernel
  obtain ⟨u, server⟩ := Option.isSome_iff_exists.mp there
  obtain ⟨after, count, -⟩ := registry_is_map new orders server
  have one : deeds.countP Deed.removes = 1 ∧ deeds.countP Deed.adds = 1 := by decide
  refine ⟨v₆, u, new, orders, server, after, ?_⟩
  omega

end Switchboard
