import Switchboard.Proofs.Filters
import Switchboard.Proofs.Orders
import Switchboard.Proofs.Publications

/-! # Publications and notifications on their way

A publisher or notifier sends one valid message or nothing: what is asked of it is checked before it
passes anything to its link (`World.start_posting`). The link then refuses the message, or passes it
to the hub once, which starts one delivery for each registration that accepts it
(`World.Transfers`). What a task does in a whole run is what it records in its turns
(`World.recorded`). Main statement: `posted_once_or_not_at_all`.
-/

namespace Switchboard

/-- A publication or a notification that is asked of a link. -/
structure Posting where
  link : LinkId
  resource : UInt16
  /-- Where a notification goes to; a publication has no destination. -/
  destination : Option Address
  payload : Option Payload
  options : SendOptions

namespace Posting

def operation (x : Posting) : Operation :=
  match x.destination with
  | none => .publish x.link x.resource x.payload x.options
  | some d => .notify x.link x.resource d x.payload x.options

def draft (x : Posting) (topic : Address) : Draft :=
  match x.destination with
  | none => .publication topic
  | some d => .notification topic d

/-- The priority unless one is chosen. -/
def standing (x : Posting) : Priority :=
  match x.destination with
  | none => .standard
  | some _ => .forCalls

def message (x : Posting) (entity : Address) (id : MessageId) : Message where
  attributes :=
    { id := some id
      kind := if x.destination.isNone then .publish else .notification
      source := some (entity.atResource x.resource)
      sink := x.destination
      priority := x.options.priority.getD x.standing
      ttl := x.options.ttl
      token := x.options.token }
  payload := x.payload

/-- The entity has a concrete topic at the resource, and the priority is not unspecified. -/
structure IsAllowed (x : Posting) (entity : Address) : Prop where
  authority : entity.authority ≠ "*"
  entityId : entity.entityId ≠ 0xFFFF
  majorVersion : entity.majorVersion ≠ 0xFF
  resource : 0x8000 ≤ x.resource ∧ x.resource ≤ 0xFFFE
  priority : x.options.priority ≠ some .unspecified

variable (x : Posting) (entity : Address) (id : MessageId)

theorem operation_engine? : x.operation.engine? = none := by
  unfold operation
  split <;> rfl

theorem start_eq (w : World) (t : TaskId) :
    w.start t x.operation = w.post t x.link x.resource x.draft x.payload x.options := by
  obtain ⟨link, resource, destination, payload, options⟩ := x
  cases destination <;> rfl

theorem identified_eq :
    (x.options.apply (x.draft (entity.atResource x.resource))).identified id =
      (x.message entity id).attributes := by
  obtain ⟨link, resource, destination, payload, ⟨priority, ttl, token⟩⟩ := x
  cases destination <;> cases priority <;> cases ttl <;> cases token <;> rfl

end Posting

theorem Address.isTopic_atResource {a : Address} {resource : UInt16} :
    (a.atResource resource).isTopic = true ↔ a.authority ≠ "*" ∧ a.entityId ≠ 0xFFFF ∧
      a.majorVersion ≠ 0xFF ∧ 0x8000 ≤ resource ∧ resource ≤ 0xFFFE := by
  have last : resource ≤ 0xFFFE ↔ resource ≠ 0xFFFF := by
    rw [UInt16.le_iff_toNat_le, Ne, ← UInt16.toNat_inj]
    have := resource.toNat_lt
    simp only [UInt16.reduceToNat]
    omega
  rw [isTopic, Bool.and_eq_true, decide_eq_true_eq]
  simp only [hasWildcard, atResource, anyAuthority, anyEntityId, anyMajorVersion, anyResource,
    Bool.not_eq_true', Bool.or_eq_false_iff, beq_eq_false_iff_ne, last]
  tauto

namespace Posting

variable {x : Posting} {entity : Address} {id : MessageId}

theorem isAllowed_iff : x.IsAllowed entity ↔
    (entity.atResource x.resource).isTopic = true ∧ x.options.priority ≠ some .unspecified := by
  rw [Address.isTopic_atResource]
  constructor
  · rintro ⟨authority, entityId, majorVersion, resource, priority⟩
    exact ⟨⟨authority, entityId, majorVersion, resource⟩, priority⟩
  · rintro ⟨⟨authority, entityId, majorVersion, resource⟩, priority⟩
    exact ⟨authority, entityId, majorVersion, resource, priority⟩

/-- Nothing can be wrong with the message but its id and a chosen priority. -/
theorem isValid_message (dated : id.isValid = true) :
    (x.message entity id).attributes.isValid = true ↔ x.options.priority ≠ some .unspecified := by
  have chosen : x.options.priority.getD x.standing = .unspecified ↔
      x.options.priority = some .unspecified := by
    cases h : x.options.priority with
    | none => cases d : x.destination <;> simp [standing, d, Priority.forCalls]
    | some p => simp
  have common : (x.message entity id).attributes.commonDefects = [] ↔
      x.options.priority.getD x.standing ≠ .unspecified := by
    simp [Attributes.commonDefects_eq_nil, message, dated]
  obtain ⟨rules, own, clean⟩ : ∃ rules : RuleSet,
      (x.message entity id).attributes.kind = rules.kind ∧
        (x.message entity id).attributes.kindDefects rules = [] := by
    cases d : x.destination with
    | none => exact ⟨.publish, by simp [message, d, RuleSet.kind, Attributes.kindDefects]⟩
    | some sink => exact ⟨.notification, by simp [message, d, RuleSet.kind, Attributes.kindDefects]⟩
  rw [Attributes.isValid_iff_of_kind own, common, and_iff_left clean, Ne, chosen]

end Posting

namespace World

variable {w u v : World} {a : Act} {as : List Act} {t k : TaskId} {j : Job} {x : Posting}
  {l : LinkId} {m : Message} {es : History}

/-- What a task records in its turns of a run. -/
def recorded (t : TaskId) : World → List Act → List Event
  | _, [] => []
  | w, a :: as => (if (w.turn? a).any (·.1 = t) then w.newly a else []) ++ recorded t (w.act a) as

theorem recorded_turn (turn : w.turn? a = some (t, j)) (as : List Act) :
    w.recorded t (a :: as) = w.newly a ++ (w.act a).recorded t as := by
  simp [recorded, turn]

theorem recorded_other (other : ∀ j, w.turn? a ≠ some (t, j)) (as : List Act) :
    w.recorded t (a :: as) = (w.act a).recorded t as := by
  have idle : (w.turn? a).any (·.1 = t) = false := by
    rw [Option.any_eq_false]
    rintro ⟨k, j⟩ turn
    refine decide_eq_false ?_
    rintro rfl
    exact other j turn
  simp [recorded, idle]

/-- The task has a job to do, and takes its turn now or when a timer runs out. -/
structure Waits (a : Option TaskId × World) (t : TaskId) (j : Job) : Prop where
  idle : a.1 ≠ some t
  task : a.2.tasks.get? t = some ⟨j, false⟩
  stirs : Stirs a t

/-- So it stays until it takes its turn; only deadlines of calls are cancelled. -/
theorem Waits.kept (never : j.call? = none) :
    Kept (fun _ a => a ≠ .turn t) fun a => InTurn a ∧ Waits a t j :=
  (InTurn.kept.mono fun _ _ _ => trivial).add
    (fun tidy ho other turn _ h => ⟨fun runs => other (ho.turn tidy h.task runs),
      ho.keeps_other tidy h.task other, h.stirs.outset ho turn h.task⟩)
    fun tidy hm turn _ h =>
      have task := turn.wakeful.keeps hm tidy h.task h.idle never
      ⟨fun goes => h.idle (hm.ran goes), task, h.stirs.move hm turn h.idle task⟩

theorem ended_kept (t : TaskId) : Kept (fun _ _ => True) fun a => a.2.KeepsTo (fun _ => False) t :=
  ⟨fun _ ho _ h => h.outset ho, fun tidy hm h => h.move hm tidy fun _ _ _ _ _ _ ended => ended⟩

theorem recorded_of_ended (tidy : w.Tidy) (ended : w.KeepsTo (fun _ => False) t)
    (run : w.CanRun as) : w.recorded t as = [] := by
  induction as generalizing w with
  | nil => rfl
  | cons a as ih =>
    obtain ⟨tidy', ended'⟩ := (ended_kept t).act run.1 trivial tidy ended
    rw [recorded_other ?_ as, ih tidy' ended' run.2]
    intro j turn
    rcases turn?_cases turn with ⟨-, task⟩ | ⟨o, -, rfl, -⟩
    · exact ended.2 _ task
    · exact Nat.lt_irrefl _ ended.1

/-- A task that waits has done nothing by the end of a run, or has taken its turn in it. -/
theorem recorded_of_waits (tidy : w.Tidy) (turn : InTurn (none, w)) (run : w.CanRun as)
    (waits : Waits (none, w) t j) (never : j.call? = none) :
    w.recorded t as = [] ∧ Waits (none, w.after as) t j ∨
      ∃ p q, as = p ++ .turn t :: q ∧ Waits (none, w.after p) t j ∧
        w.recorded t as =
          (w.after p).newly (.turn t) ++ (w.after (p ++ [.turn t])).recorded t q := by
  induction as generalizing w with
  | nil => exact .inl ⟨rfl, waits⟩
  | cons a as ih =>
    by_cases own : a = .turn t
    · subst own
      exact .inr ⟨[], as, rfl, waits, recorded_turn (j := j) (by simp [turn?, waits.task]) as⟩
    · obtain ⟨tidy', turn', waits'⟩ := (Waits.kept never).act run.1 own tidy ⟨turn, waits⟩
      have other : ∀ j', w.turn? a ≠ some (t, j') := by
        intro j' takes
        rcases turn?_cases takes with ⟨rfl, -⟩ | ⟨o, -, rfl, -⟩
        · exact own rfl
        · exact Nat.lt_irrefl _ (tidy.tasks.lt waits.task)
      rw [recorded_other other as]
      rcases ih tidy' turn' run.2 waits' with ⟨none, waits''⟩ | ⟨p, q, rfl, waits'', some⟩
      · exact .inl ⟨none, waits''⟩
      · exact .inr ⟨a :: p, q, rfl, waits'', some⟩

/-! ## What a link makes of a message -/

/-- The task has left the table to take its turn, and so far has at most recorded something and
taken an id. -/
structure Entered (w : World) (t : TaskId) (u : World) : Prop where
  fresh : u.tasks.Fresh
  free : u.tasks.get? t = none
  old : t < u.tasks.next
  others : ∀ k, k ≠ t → u.tasks.get? k = w.tasks.get? k
  next : w.tasks.next ≤ u.tasks.next
  links : u.links = w.links
  hub : u.hub = w.hub

theorem Entered.record (h : Entered w t u) (e : Event) : Entered w t (u.record e) :=
  ⟨h.fresh, h.free, h.old, h.others, h.next, h.links, h.hub⟩

theorem Entered.mint (h : Entered w t u) : Entered w t u.mint.2 :=
  ⟨h.fresh, h.free, h.old, h.others, h.next, h.links, h.hub⟩

theorem entered_without (tidy : w.Tidy) (task : w.tasks.get? t = some ⟨j, false⟩) :
    Entered w t (w.without t) where
  fresh := tidy.tasks.erase t
  free := by simp
  old := tidy.tasks.lt task
  others k other := by simp [other]
  next := Nat.le_refl _
  links := rfl
  hub := rfl

theorem entered_reserve (tidy : w.Tidy) :
    Entered w w.tasks.next { w with tasks := w.tasks.reserve.2 } where
  fresh := tidy.tasks.reserve
  free := tidy.tasks.next
  old := Nat.lt_succ_self _
  others _ _ := rfl
  next := Nat.le_succ _
  links := rfl
  hub := rfl

/-- In the act one delivery starts for each of the registrations, and no other. -/
structure Starts (w : World) (a : Act) (m : Message) (rs : List Registration) (ks : List TaskId) :
    Prop where
  nodup : ks.Nodup
  started : List.Forall₂ (fun k r => w.tasks.get? k = none ∧
    (w.act a).tasks.get? k = some ⟨.deliver r.listener m, false⟩ ∧ k ∈ (w.act a).ready) ks rs
  only : ∀ k y, (w.act a).tasks.get? k = some y → y.job.delivery?.isSome = true →
    k ∈ ks ∨ w.tasks.get? k = some y

theorem Entered.starts_none (h : Entered w t u) (same : (w.act a).tasks = u.tasks) (m : Message) :
    w.Starts a m [] [] := by
  refine ⟨List.nodup_nil, .nil, fun k y task _ => .inr ?_⟩
  rw [same] at task
  rw [← h.others k ?_]
  · exact task
  · rintro rfl
    cases h.free.symm.trans task

theorem Entered.starts (h : Entered w t u) (tidy : w.Tidy) (m : Message)
    (tasks : (w.act a).tasks = (u.broadcast m).tasks)
    (ready : (w.act a).ready = (u.broadcast m).ready) :
    ∃ ks, w.Starts a m (w.hub.registrations.filter (·.accepts m)) ks := by
  let rs := w.hub.registrations.filter (·.accepts m)
  have recipients : u.hub.recipients m = rs.map (·.listener) := by rw [Hub.recipients, h.hub]
  have started : ∀ n, (u.broadcast m).tasks.get? (u.tasks.next + n) =
      (rs[n]?).map fun r => ⟨.deliver r.listener m, false⟩ := by
    intro n
    rw [broadcast, broadcast_get? h.fresh, recipients, List.getElem?_map, Option.map_map]
    rfl
  refine ⟨(List.range rs.length).map (u.tasks.next + ·), ?_, ?_, fun k y task delivers => ?_⟩
  · exact List.nodup_range.map fun _ _ => Nat.add_left_cancel
  · refine List.forall₂_iff_get.mpr ⟨by simp [rs], fun n bound bound' => ?_⟩
    have key : ((List.range rs.length).map (u.tasks.next + ·)).get ⟨n, bound⟩ =
        u.tasks.next + n := by simp
    have there := (started n).trans (by rw [List.getElem?_eq_getElem bound', Option.map_some])
    rw [key, tasks, ready]
    refine ⟨tidy.tasks _ (Nat.le_trans h.next (Nat.le_add_right _ _)), there, ?_⟩
    obtain ⟨fresh, -, -⟩ := broadcast_spawns u m (u.hub.recipients m) h.fresh
    exact ready_broadcast (Nat.le_add_right _ _) (fresh.lt there)
  · rw [tasks] at task
    rcases broadcast_task h.fresh task with before | ⟨n, listener, rfl, recipient, -⟩
    · refine .inr ((h.others k ?_).symm.trans before)
      rintro rfl
      cases h.free.symm.trans before
    · refine .inl (List.mem_map.mpr ⟨n, List.mem_range.mpr ?_, rfl⟩)
      rw [recipients, List.getElem?_map, Option.map_eq_some_iff] at recipient
      obtain ⟨r, found, -⟩ := recipient
      exact (List.getElem?_eq_some_iff.mp found).1

/-- A link refuses a message, and the poster is told so, or it passes the message to the hub, which
starts a delivery for each registration that accepts it. -/
inductive Transfers (w : World) (a : Act) (l : LinkId) (m : Message) :
    Except Refusal Unit → List TaskId → Prop
  | refused (s : Status) (refusal : w.refusal? l .send = some s) (none : w.Starts a m [] []) :
    Transfers w a l m (.error (.failure (.sendFailed s))) []
  | passed (ks : List TaskId) (accepted : w.refusal? l .send = none)
      (starts : w.Starts a m (w.hub.registrations.filter (·.accepts m)) ks) :
    Transfers w a l m (.ok ()) ks

/-- **A message that is posted is refused or passed to the hub**, and its task ends. -/
theorem Entered.transfers (h : Entered w t u) (tidy : w.Tidy) (events : u.events = es ++ w.events)
    (act : w.act a = u.sendNow t l m (.report .sending)) :
    ∃ r ks, w.Transfers a l m r ks ∧ w.newly a = (es.map (·.2)).reverse ++ [.finished t r] ∧
      (w.act a).KeepsTo (fun _ => False) t := by
  have refusal : u.refusal? l .send = w.refusal? l .send := by rw [refusal?, refusal?, h.links]
  have newly : ∀ r, (w.act a).events = (u.now, .finished t r) :: u.events →
      w.newly a = (es.map (·.2)).reverse ++ [.finished t r] := by
    intro r recorded
    rw [events, ← List.cons_append] at recorded
    rw [newly_of_events recorded]
    simp
  obtain ⟨gone, ended⟩ := sendNow_report (l := l) (m := m) (r := .sending) h.fresh h.free h.old
  rw [← act] at gone ended
  have leaves : t < (w.act a).tasks.next → (w.act a).KeepsTo (fun _ => False) t :=
    fun old => ⟨old, fun y task => by cases gone.symm.trans task⟩
  cases refused : u.refusal? l .send with
  | some s =>
    rw [sendNow, refused] at act
    rw [refused] at ended refusal
    have tasks : (w.act a).tasks = u.tasks := by rw [act]; rfl
    exact ⟨_, _, .refused s refusal.symm (h.starts_none tasks m), newly _ ended,
      leaves (tasks ▸ h.old)⟩
  | none =>
    rw [sendNow, refused] at act
    rw [refused] at ended refusal
    have tasks : (w.act a).tasks = (u.broadcast m).tasks := by rw [act]; rfl
    obtain ⟨ks, starts⟩ := h.starts tidy m tasks (by rw [act]; rfl)
    obtain ⟨-, next, -⟩ := broadcast_spawns u m (u.hub.recipients m) h.fresh
    exact ⟨_, ks, .passed ks refusal.symm starts, newly _ ended,
      leaves (tasks ▸ Nat.lt_of_lt_of_le h.old next)⟩

/-- A message that is passed to a link stays with it for its delay, and is then dealt with. -/
theorem Entered.sends (h : Entered w t u) (tidy : w.Tidy) (events : u.events = w.events)
    (act : w.act a = u.send t l m (.report .sending)) :
    w.delay l .send ≠ 0 ∧ w.newly a = [.sent l m] ∧
        Waits (none, w.act a) t (.send l m (.report .sending)) ∨
      w.delay l .send = 0 ∧ ∃ r ks, w.Transfers a l m r ks ∧
        w.newly a = [.sent l m, .finished t r] ∧ (w.act a).KeepsTo (fun _ => False) t := by
  have delay : (u.record (.sent l m)).delay l .send = w.delay l .send := by
    rw [World.delay, World.delay, show (u.record (.sent l m)).links = u.links from rfl, h.links]
  have sent : (u.record (.sent l m)).events = [(u.now, .sent l m)] ++ w.events := by
    rw [← events]
    rfl
  simp only [send, delay] at act
  split at act
  · rename_i none
    exact .inr ⟨none, (h.record _).transfers tidy sent act⟩
  · rename_i later
    refine .inl ⟨later, ?_, ?_⟩
    · have recorded : (w.act a).events = [(u.now, .sent l m)] ++ w.events := by
        rw [act, ← sent]
        rfl
      rw [newly_of_events recorded]
      rfl
    · rw [act]
      exact ⟨(Option.some_ne_none t).symm, sleep_self .., .slept ..⟩

theorem Entered.records (h : Entered w t u) (events : u.events = w.events) {e : Event}
    (act : w.act a = u.record e) :
    w.newly a = [e] ∧ (w.act a).KeepsTo (fun _ => False) t ∧ ∀ m, w.Starts a m [] [] := by
  refine ⟨?_, ⟨act ▸ h.old, fun y task => ?_⟩, fun m => h.starts_none (act ▸ rfl) m⟩
  · have recorded : (w.act a).events = [(u.now, e)] ++ w.events := by
      rw [act, ← events]
      rfl
    rw [newly_of_events recorded]
    rfl
  · rw [act] at task
    cases h.free.symm.trans task

/-- The task hands the message to the listener in the run, once, or is ready to at its end. -/
def HandsOver (w : World) (as : List Act) (k : TaskId) (l : Listener) (m : Message) : Prop :=
  w.recorded k as = [.delivered l m] ∨ w.recorded k as = [] ∧ k ∈ (w.after as).ready

theorem Posted.handsOver {key : Nat} (posted : Posted (none, w)) (tidy : w.Tidy)
    (turn : InTurn (none, w)) (run : w.CanRun as)
    (task : w.tasks.get? k = some ⟨.deliver (.plain key) m, false⟩) :
    w.HandsOver as k (.plain key) m := by
  have known : ∀ {bs : List Act}, w.CanRun bs → Along (fun _ _ => True) w bs :=
    fun run => run.mono fun _ _ _ => trivial
  obtain ⟨-, ready⟩ := posted.ready k _ _ _ task rfl
  have waits : Waits (none, w) k (.deliver (.plain key) m) :=
    ⟨nofun, task, .inr (.inl (ready.resolve_right nofun))⟩
  rcases recorded_of_waits tidy turn run waits rfl with ⟨none, waits'⟩ | ⟨p, q, rfl, waits', some⟩
  · obtain ⟨-, -, posted'⟩ := Posted.kept.run run (known run) tidy ⟨turn, posted⟩
    obtain ⟨-, ready'⟩ := posted'.ready k _ _ _ waits'.task rfl
    exact .inr ⟨none, ready'.resolve_right nofun⟩
  · obtain ⟨before, possible, after⟩ := Along.append.mp run
    obtain ⟨tidy', -⟩ := grows_after tidy before
    have act : (w.after p).act (.turn k) =
        ((w.after p).without k).record (.delivered (.plain key) m) := run_of_task waits'.task
    obtain ⟨newly, ended, -⟩ := (entered_without tidy' waits'.task).records rfl act
    obtain ⟨tidy'', -⟩ := grows_act tidy' possible
    rw [after_append, after_cons, after_nil, recorded_of_ended tidy'' ended after, newly] at some
    exact .inl some

/-! ## Postings -/

/-- The task that starts an operation in its turn, or in the foreground. -/
theorem entered_start {o : Operation} (tidy : w.Tidy) (turn : w.turn? a = some (t, .start o))
    (engine : o.engine? = none) :
    ∃ u, Entered w t u ∧ u.ids = w.ids ∧ u.events = w.events ∧ w.act a = u.start t o := by
  rcases turn?_cases turn with ⟨rfl, task⟩ | ⟨o, rfl, rfl, start⟩
  · refine ⟨w.without t, entered_without tidy task, rfl, rfl, ?_⟩
    have act := run_of_task task
    rw [show (Job.start o).holds = none from engine] at act
    exact act
  · cases start
    exact ⟨_, entered_reserve tidy, rfl, rfl, rfl⟩

theorem start_of_allowed {link : Link} (linked : w.links.get? x.link = some link)
    (dated : w.mint.1.isValid = true) (allowed : x.IsAllowed link.address) :
    w.start t x.operation =
      w.mint.2.send t x.link (x.message link.address w.mint.1) (.report .sending) := by
  obtain ⟨onTopic, priority⟩ := Posting.isAllowed_iff.mp allowed
  have topical : topic link.address.entity x.resource =
      .ok (link.address.atResource x.resource) := if_pos onTopic
  have valid : ((x.options.apply (x.draft (link.address.atResource x.resource))).identified
      w.mint.1).isValid = true := by
    rwa [x.identified_eq, Posting.isValid_message dated]
  have finish := Draft.finish_of_isValid valid x.payload
  rw [x.start_eq, post, linked]
  simp only [topical, finish, x.identified_eq]
  rfl

theorem start_of_not_allowed {link : Link} (linked : w.links.get? x.link = some link)
    (dated : w.mint.1.isValid = true) (refused : ¬x.IsAllowed link.address) :
    ∃ detail v, (v = w ∨ v = w.mint.2) ∧ w.start t x.operation =
      v.record (.finished t (.error (.failure (.invalidArgument detail)))) := by
  rw [x.start_eq, post, linked]
  by_cases onTopic : (link.address.atResource x.resource).isTopic = true
  · have topical : topic link.address.entity x.resource =
        .ok (link.address.atResource x.resource) := if_pos onTopic
    simp only [topical]
    cases finish : (x.options.apply (x.draft (link.address.atResource x.resource))).finish
        w.mint.1 x.payload with
    | error e =>
      obtain ⟨e, -, rfl⟩ := Draft.finish_eq_error.mp finish
      exact ⟨_, _, .inr rfl, rfl⟩
    | ok m =>
      have valid := Draft.isValid_of_finish finish
      obtain ⟨-, rfl⟩ := Draft.finish_eq_ok.mp finish
      rw [x.identified_eq, Posting.isValid_message dated] at valid
      exact absurd (Posting.isAllowed_iff.mpr ⟨onTopic, valid⟩) refused
  · have offTopic : ∃ detail, topic link.address.entity x.resource =
        .error (.invalidArgument detail) := ⟨_, if_neg onTopic⟩
    obtain ⟨detail, offTopic⟩ := offTopic
    simp only [offTopic]
    exact ⟨detail, w, .inl rfl, rfl⟩

/-- The link refuses a message in an act, or passes it to the hub, and then each delivery to a plain
listener is made. -/
structure Settles (w : World) (a : Act) (as : List Act) (l : LinkId) (m : Message)
    (r : Except Refusal Unit) (ks : List TaskId) : Prop where
  transfers : w.Transfers a l m r ks
  handsOver : ∀ k ∈ ks, ∀ key, (w.act a).tasks.get? k = some ⟨.deliver (.plain key) m, false⟩ →
    (w.act a).HandsOver as k (.plain key) m

/-- What becomes of a posted message in a run: the link keeps it for its delay, or is done with it
in some act and tells the poster. -/
inductive Fares (w : World) (as : List Act) (t : TaskId) (l : LinkId) (m : Message) :
    List Event → Prop
  | waits (task : Waits (none, w.after as) t (.send l m (.report .sending))) : Fares w as t l m []
  | ends (p : List Act) (a : Act) (q : List Act) (r : Except Refusal Unit) (ks : List TaskId)
      (split : as = p ++ a :: q) (settles : (w.after p).Settles a q l m r ks) :
    Fares w as t l m [.finished t r]

theorem Fares.later {told : List Event} (h : (w.act a).Fares as t l m told) :
    w.Fares (a :: as) t l m told := by
  cases h with
  | waits task => exact .waits task
  | ends p b q r ks split settles => exact .ends (a :: p) b q r ks (by rw [split]; rfl) settles

/-- An act in which the link is done with the message is the poster's last. -/
theorem Transfers.settles {r : Except Refusal Unit} {ks : List TaskId}
    (transfers : w.Transfers a l m r ks) (tidy : w.Tidy) (turn : InTurn (none, w))
    (posted : Posted (none, w)) (run : w.CanRun (a :: as))
    (ended : (w.act a).KeepsTo (fun _ => False) t) :
    w.Settles a as l m r ks ∧ (w.act a).recorded t as = [] := by
  obtain ⟨tidy', turn', posted'⟩ := Posted.kept.act run.1 trivial tidy ⟨turn, posted⟩
  exact ⟨⟨transfers, fun k _ key task => posted'.handsOver tidy' turn' run.2 task⟩,
    recorded_of_ended tidy' ended run.2⟩

/-- A posted message that its link keeps for a while is dealt with when its task takes its turn. -/
theorem Waits.fares (h : Waits (none, w) t (.send l m (.report .sending))) (tidy : w.Tidy)
    (turn : InTurn (none, w)) (posted : Posted (none, w)) (run : w.CanRun as) :
    w.Fares as t l m (w.recorded t as) := by
  rcases recorded_of_waits tidy turn run h rfl with ⟨none, waits⟩ | ⟨p, q, rfl, waits, some⟩
  · rw [none]
    exact .waits waits
  · obtain ⟨before, later⟩ := Along.append.mp run
    obtain ⟨tidy', turn', posted'⟩ :=
      Posted.kept.run before (before.mono fun _ _ _ => trivial) tidy ⟨turn, posted⟩
    have act : (w.after p).act (.turn t) =
        ((w.after p).without t).sendNow t l m (.report .sending) := run_of_task waits.task
    have none : ((w.after p).without t).events = [] ++ (w.after p).events := rfl
    obtain ⟨r, ks, transfers, newly, ended⟩ :=
      (entered_without tidy' waits.task).transfers tidy' none act
    obtain ⟨settles, silent⟩ := transfers.settles tidy' turn' posted' later ended
    rw [after_append, after_cons, after_nil, silent, newly] at some
    rw [some]
    exact .ends p _ q r ks rfl settles

/-- **What is allowed is sent once**, and what the poster is told of it is its fate. -/
theorem fares_of_allowed {link : Link} (tidy : w.Tidy) (turn : InTurn (none, w))
    (posted : Posted (none, w)) (run : w.CanRun (a :: as))
    (start : w.turn? a = some (t, .start x.operation)) (linked : w.links.get? x.link = some link)
    (dated : w.mint.1.isValid = true) (allowed : x.IsAllowed link.address) :
    ∃ told, w.recorded t (a :: as) =
        .sent x.link (x.message link.address w.mint.1) :: told ∧
      w.Fares (a :: as) t x.link (x.message link.address w.mint.1) told ∧
      (link.onSend.delay = 0 → ∃ r ks, told = [.finished t r] ∧
        w.Settles a as x.link (x.message link.address w.mint.1) r ks) := by
  obtain ⟨tidy', turn', posted'⟩ := Posted.kept.act run.1 trivial tidy ⟨turn, posted⟩
  obtain ⟨u, entered, ids, events, act⟩ := entered_start tidy start x.operation_engine?
  have minted : u.mint.1 = w.mint.1 := by rw [mint, mint, ids]
  have delay : w.delay x.link .send = link.onSend.delay := by
    rw [World.delay, linked]
    rfl
  rw [start_of_allowed (entered.links ▸ linked) (minted ▸ dated) allowed, minted] at act
  rw [recorded_turn start, ← delay]
  rcases entered.mint.sends tidy events act with
    ⟨slow, newly, waits⟩ | ⟨fast, r, ks, transfers, newly, ended⟩
  · exact ⟨_, by rw [newly]; rfl, (waits.fares tidy' turn' posted' run.2).later,
      fun fast => absurd fast slow⟩
  · obtain ⟨settles, silent⟩ := transfers.settles tidy turn posted run ended
    exact ⟨_, by rw [newly, silent]; rfl, .ends [] a as r ks rfl settles,
      fun _ => ⟨r, ks, rfl, settles⟩⟩

/-- **What is not allowed is not sent.** -/
theorem told_of_not_allowed {link : Link} (tidy : w.Tidy) (run : w.CanRun (a :: as))
    (start : w.turn? a = some (t, .start x.operation)) (linked : w.links.get? x.link = some link)
    (dated : w.mint.1.isValid = true) (refused : ¬x.IsAllowed link.address) :
    (∃ detail, w.recorded t (a :: as) =
      [.finished t (.error (.failure (.invalidArgument detail)))]) ∧ ∀ m, w.Starts a m [] [] := by
  obtain ⟨u, entered, ids, events, act⟩ := entered_start tidy start x.operation_engine?
  have minted : u.mint.1 = w.mint.1 := by rw [mint, mint, ids]
  obtain ⟨detail, u', same, told⟩ :=
    start_of_not_allowed (entered.links ▸ linked) (minted ▸ dated) refused
  have entered' : Entered w t u' ∧ u'.events = w.events := by
    rcases same with rfl | rfl
    · exact ⟨entered, events⟩
    · exact ⟨entered.mint, events⟩
  obtain ⟨newly, ended, starts⟩ := entered'.1.records entered'.2 (act.trans told)
  obtain ⟨tidy', -⟩ := grows_act tidy run.1
  refine ⟨⟨detail, ?_⟩, starts⟩
  rw [recorded_turn start, newly, recorded_of_ended tidy' ended run.2]
  rfl

end World

/-- What a notifier at an address asks its link for to listen to a topic. -/
def Operation.listen (l : LinkId) (address topic : Address) (key : Nat) : Operation :=
  .register l topic (some address.entity) key .listening

def Registration.listening (l : LinkId) (address topic : Address) (key : Nat) : Registration :=
  ⟨l, topic, some address.entity, .plain key⟩

theorem Posting.listening_accepts (x : Posting) (entity : Address) (id : MessageId) (l : LinkId)
    (address topic : Address) (key : Nat) :
    (Registration.listening l address topic key).accepts (x.message entity id) = true ↔
      topic.admits (entity.atResource x.resource) = true ∧
        ∃ d, x.destination = some d ∧ address.entity.admits d = true := by
  simp [Registration.accepts_iff, Registration.Matches, Registration.listening, message]

open World in
/-- **A posting sends one valid message or nothing.** Let a task start to publish or to notify. If
the entity of its link has no concrete topic at the resource, or the priority is unspecified, it is
told of an invalid argument, and that is all. Otherwise it passes one message to its link, which is
valid and holds what the poster has chosen, and what is usual of the rest. When the link has taken
its time, it refuses the message, of which the poster is told the status, or passes it to the hub.
Then a delivery starts for each registration that accepts the message, and for nothing else; each
delivery to a plain listener hands the message to it once, in this run or when its turn comes. A
link that is open and without faults passes the message on at once. Of the registrations by which
notifiers listen, those accept it that admit the topic and belong to an entity whose address admits
the destination; if that address has no wildcard, it is the destination itself. -/
theorem posted_once_or_not_at_all {w : World} {p q : List Act} {a : Act} {t : TaskId} {x : Posting}
    {link : Link} (new : w.IsNew) (run : w.CanRun (p ++ a :: q))
    (start : (w.after p).turn? a = some (t, .start x.operation))
    (linked : (w.after p).links.get? x.link = some link)
    (dated : (w.after p).mint.1.isValid = true) :
    let v := w.after p
    let m := x.message link.address v.mint.1
    (¬x.IsAllowed link.address → (∃ detail, v.recorded t (a :: q) =
        [.finished t (.error (.failure (.invalidArgument detail)))]) ∧ ∀ m, v.Starts a m [] []) ∧
    (x.IsAllowed link.address → m.attributes.isValid = true ∧
      (∃ told, v.recorded t (a :: q) = .sent x.link m :: told ∧ v.Fares (a :: q) t x.link m told) ∧
      (link.closed = false → link.onSend = {} →
        v.recorded t (a :: q) = [.sent x.link m, .finished t (.ok ())] ∧
          ∃ ks, v.Settles a q x.link m (.ok ()) ks)) ∧
    ∀ l address topic key, ((Registration.listening l address topic key).accepts m = true ↔
        topic.admits (link.address.atResource x.resource) = true ∧
          ∃ d, x.destination = some d ∧ address.entity.admits d = true) ∧
      (address.entity.hasWildcard = false →
        ((Registration.listening l address topic key).accepts m = true ↔
          topic.admits (link.address.atResource x.resource) = true ∧
            x.destination = some address.entity)) := by
  intro v m
  obtain ⟨before, now⟩ := Along.append.mp run
  obtain ⟨tidy, turn, posted⟩ := Posted.kept.run before (before.mono fun _ _ _ => trivial)
    (.new new) ⟨.new new, .new new⟩
  refine ⟨told_of_not_allowed tidy now start linked dated, fun allowed => ?_,
    fun l address topic key => ?_⟩
  · obtain ⟨told, recorded, fares, atOnce⟩ :=
      fares_of_allowed tidy turn posted now start linked dated allowed
    refine ⟨(Posting.isValid_message dated).mpr allowed.priority, ⟨told, recorded, fares⟩,
      fun opened sound => ?_⟩
    obtain ⟨r, ks, rfl, settles⟩ := atOnce (by rw [sound])
    have refusal : v.refusal? x.link .send = none := by
      rw [refusal?, linked]
      simp [Link.refusal?, Link.fault, sound, opened]
    have passed := settles.transfers
    cases passed with
    | refused s refused none => cases refusal.symm.trans refused
    | passed ks accepted starts => exact ⟨recorded, ks, settles⟩
  · have heard := x.listening_accepts link.address v.mint.1 l address topic key
    refine ⟨heard, fun concrete => heard.trans (and_congr_right fun _ => ?_)⟩
    constructor
    · rintro ⟨d, destination, admits⟩
      rw [destination, (Address.admits_iff_eq concrete).mp admits]
    · exact fun destination => ⟨_, destination, Address.admits_self _⟩

open World in
/-- A shop notifies a till. The till's notifier hears of it, and the shop's own one does not, though
both listen to every topic. -/
theorem notification_reaches_its_destination :
    let ids : MessageId.Source := { issue := fun n => .stamped 1 (BitVec.ofNat 74 n) }
    let shop : Address := ⟨"shop", 16, 1, 0⟩
    let till : Address := ⟨"till", 32, 1, 0⟩
    let w : World := { wall := 0, ids := ids }
    let p : List Act := [.command (.addLink shop), .command (.addLink till),
      .command (.enter (.listen 0 shop Address.any 7)),
      .command (.enter (.listen 1 till Address.any 8))]
    let x : Posting := ⟨0, 0x8000, some till, none, { token := some "open" }⟩
    let a : Act := .command (.enter x.operation)
    let v := w.after p
    let m := x.message shop (ids.issue 0)
    w.IsNew ∧ w.CanRun (p ++ [a, .turn 3]) ∧ v.turn? a = some (2, .start x.operation) ∧
      v.links.get? 0 = some { address := shop } ∧ v.mint.1.isValid = true ∧
      v.hub.registrations =
        [.listening 0 shop Address.any 7, .listening 1 till Address.any 8] ∧
      v.recorded 2 [a, .turn 3] = [.sent 0 m, .finished 2 (.ok ())] ∧
      (∃ ks, v.Settles a [.turn 3] 0 m (.ok ()) ks) ∧
      ¬(Registration.listening 0 shop Address.any 7).accepts m = true ∧
      (Registration.listening 1 till Address.any 8).accepts m = true := by
  intro ids shop till w p x a v m
  have new : w.IsNew := ⟨0, ids, rfl⟩
  have run : w.CanRun (p ++ [a, .turn 3]) := by decide +kernel
  have start : v.turn? a = some (2, .start x.operation) := rfl
  have linked : v.links.get? 0 = some { address := shop } := by decide +kernel
  have dated : v.mint.1.isValid = true := by decide +kernel
  have registered : v.hub.registrations =
      [.listening 0 shop Address.any 7, .listening 1 till Address.any 8] := by decide +kernel
  obtain ⟨-, sends, heard⟩ := posted_once_or_not_at_all (x := x) new run start linked dated
  have allowed : x.IsAllowed shop :=
    ⟨by decide, by decide, by decide, by decide, by decide⟩
  obtain ⟨-, -, atOnce⟩ := sends allowed
  obtain ⟨recorded, settles⟩ := atOnce rfl rfl
  have minted : v.mint.1 = ids.issue 0 := by decide +kernel
  rw [show x.message shop v.mint.1 = m by rw [minted]] at recorded settles heard
  have admitted : Address.any.admits (shop.atResource 0x8000) = true := by decide
  refine ⟨new, run, start, linked, dated, registered, recorded, settles, ?_, ?_⟩
  · rw [(heard 0 shop Address.any 7).2 (by decide)]
    exact fun own => absurd own.2 (by decide)
  · exact ((heard 1 till Address.any 8).2 (by decide)).mpr ⟨admitted, rfl⟩

end Switchboard
