import Switchboard.Proofs.Answers
import Switchboard.Proofs.Deeds

/-! # What a delivery to a server leads to

A server's listener is handed a message in the turn of a task of its own. If the message is a
request that is to be served, this very task runs the handler, makes the answer and passes it to the
server's link; whatever else happens meanwhile, nobody does any of this a second time. Main
statement: each delivery leads to one response that fits the request, or to none, and nothing is
handled or answered without a delivery (`one_response_per_request`).
-/

namespace Switchboard

structure Message.Responds (r m : Message) : Prop where
  valid : r.attributes.isValid = true
  kind : r.attributes.isResponse = true
  requestId : r.attributes.requestId = m.attributes.id
  sink : r.attributes.sink = m.attributes.source
  source : r.attributes.source = m.attributes.sink
  priority : r.attributes.priority = m.attributes.priority
  ttl : r.attributes.ttl = m.attributes.ttl
  token : r.attributes.token = none

theorem Attributes.identified_of_valid {a : Attributes} (valid : a.isValid = true) :
    a.id.isSome = true := by
  obtain ⟨-, -, common, -⟩ := exists_rules_of_isValid valid
  exact Option.isSome_of_any (commonDefects_eq_nil.mp common).1

/-- The answer to a valid request can be made, and fits it. -/
theorem Replies.responds {w : World} {s : ServerId} {m : Message} {j : Job} {es : List Event}
    {draft : Draft} {payload : Option Payload} {fresh : MessageId}
    (h : Replies w s m j es draft payload) (request : m.attributes.isRequest = true)
    (valid : m.attributes.isValid = true) (dated : fresh.isValid = true) :
    ∃ r, draft.finish fresh payload = .ok r ∧ r.Responds m := by
  obtain ⟨r, finish⟩ :=
    h.exists_finish request valid (Attributes.identified_of_valid valid) dated
  obtain ⟨kind, requestId, source, sink⟩ := h.finish finish
  obtain ⟨rfl, valid⟩ := Draft.finish_ok finish
  have kept : draft.attributes.priority = m.attributes.priority ∧
      draft.attributes.ttl = m.attributes.ttl ∧ draft.attributes.token = none := by
    cases h with
    | ended h => cases h.run m <;> exact ⟨rfl, rfl, rfl⟩
    | unserved v draft server alive judged =>
      obtain ⟨-, -, -, -, rfl⟩ := Server.judge_eq_unserved judged
      exact ⟨rfl, rfl, rfl⟩
  exact ⟨_, finish, valid, kind, requestId, sink, source, kept.1, kept.2.1, kept.2.2⟩

def Job.isReply : Job → Bool
  | .send _ _ (.answer _) => true
  | _ => false

theorem Leads.isReply {w : World} {t : TaskId} {j j' : Job} (h : Leads w t j j')
    (other : ∀ l m, j' ≠ .deliver l m) (reply : j.isReply = true) : j'.isReply = true := by
  cases h with
  | broadcast l m after listener accepted recipient => exact absurd rfl (other _ m)
  | request j i c id m use caller listening => cases j <;> simp_all [Job.use?, Job.isReply]
  | attempt j u p use seat => cases j <;> simp_all [Job.use?, Job.isReply]
  | reply => rfl
  | _ => cases reply

namespace World

variable {w v : World} {k : TaskId} {s : ServerId} {c : Server} {m r : Message}
  {es : List Event}

/-- Since the earlier world the events have happened, and the task has at most an answer left to
pass on. -/
structure Replied (w v : World) (k : TaskId) (es : List Event) : Prop where
  events : v.events = (es.map fun e => (w.now, e)).reverse ++ w.events
  rest : v.KeepsTo (·.isReply = true) k

/-- A task that is about to do its job is in no table. -/
structure Idle (w : World) (k : TaskId) : Prop where
  fresh : w.tasks.Fresh
  lt : k < w.tasks.next
  free : w.tasks.get? k = none

theorem Idle.of_same (h : w.Idle k) (tasks : v.tasks = w.tasks) : v.Idle k :=
  ⟨tasks ▸ h.fresh, tasks ▸ h.lt, tasks ▸ h.free⟩

theorem Idle.without (tidy : w.Tidy) {x : Task} (task : w.tasks.get? k = some x) :
    (w.without k).Idle k :=
  ⟨(tidy.without k).tasks, tidy.tasks.lt task, by simp⟩

theorem Idle.replied (h : w.Idle k) : w.Replied w k [] :=
  ⟨rfl, h.lt, fun x task => by rw [h.free] at task; cases task⟩

/-- An answer that is passed on leaves no trace of its own, whether the link takes it or not. -/
theorem sendNow_answer (idle : w.Idle k) (l : LinkId) :
    w.Replied (w.sendNow k l r (.answer s)) k [] := by
  unfold sendNow
  cases w.refusal? l .send with
  | some status => exact idle.replied
  | none =>
    obtain ⟨-, hn, hold⟩ := broadcast_spawns w r (w.hub.recipients r) idle.fresh
    refine ⟨by simp [afterSend], Nat.lt_of_lt_of_le idle.lt hn, fun x task => ?_⟩
    have task : w.tasks.get? k = some x := (hold k idle.lt).symm.trans task
    rw [idle.free] at task
    cases task

theorem send_answer (idle : w.Idle k) (l : LinkId) :
    w.Replied (w.send k l r (.answer s)) k [.sent l r] := by
  unfold send
  dsimp only
  split
  · obtain ⟨events, rest⟩ :=
      sendNow_answer (s := s) (r := r) (idle.of_same (v := w.record (.sent l r)) rfl) l
    exact ⟨by simpa using events, rest⟩
  · refine ⟨by simp, idle.lt, fun x task => ?_⟩
    rw [sleep_self] at task
    cases task
    rfl

@[simp] theorem send_answer_ids (w : World) (k : TaskId) (l : LinkId) (r : Message)
    (s : ServerId) : (w.send k l r (.answer s)).ids = w.ids := by
  unfold send sendNow
  dsimp only
  split
  · split <;> simp [afterSend]
  · simp

theorem answer_ids (server : w.servers.get? s = some c) (draft : Draft)
    (payload : Option Payload) : (w.answer k s m draft payload).ids = w.mint.2.ids := by
  simp only [answer, server]
  split <;> simp

/-- A server that can make its answer passes it to its link once. -/
theorem answer_replied (idle : w.Idle k) (server : w.servers.get? s = some c) {draft : Draft}
    {payload : Option Payload} (finish : draft.finish w.mint.1 payload = .ok r) :
    w.Replied (w.answer k s m draft payload) k [.answered s m r, .sent c.seat.link r] := by
  have idle : (w.mint.2.record (.answered s m r)).Idle k := idle.of_same rfl
  obtain ⟨events, rest⟩ := send_answer (s := s) (r := r) idle c.seat.link
  simp only [answer, server, finish]
  exact ⟨by simpa using events, rest⟩

/-- It can make its answer to a valid request, and the answer fits the request. -/
theorem answer_responds {u : World} {j : Job} {seen : List Event} {draft : Draft}
    {payload : Option Payload} (idle : w.Idle k) (server : w.servers.get? s = some c)
    (replies : Replies u s m j seen draft payload) (request : m.attributes.isRequest = true)
    (valid : m.attributes.isValid = true)
    (dated : ∀ id, (w.answer k s m draft payload).ids.HasIssued id → id.isValid = true) :
    ∃ r, r.Responds m ∧ draft.finish w.mint.1 payload = .ok r ∧
      w.Replied (w.answer k s m draft payload) k [.answered s m r, .sent c.seat.link r] := by
  rw [answer_ids server] at dated
  obtain ⟨r, finish, responds⟩ := replies.responds request valid
    (dated w.mint.1 ⟨w.ids.issued, Nat.lt_succ_self _, rfl⟩)
  exact ⟨r, responds, finish, answer_replied idle server finish⟩

/-! ## The turns of a delivery -/

theorem Replied.record {e : Event} (h : (w.record e).Replied v k es) : w.Replied v k (e :: es) :=
  ⟨by simpa using h.events, h.rest⟩

theorem Replied.release (h : w.Replied v k es) (held : Option EngineId) :
    w.Replied (v.releaseAfter k held) k es := by
  refine ⟨by simpa using h.events, ?_⟩
  rcases releaseAfter_cases v k held with he | ⟨e, p, he⟩
  · rw [he]
    exact h.rest
  · rcases remove_tasks v e p .inside with ⟨-, -, -, tasks⟩ | tasks <;> rw [he, KeepsTo, tasks]
    · refine ⟨Nat.lt_succ_of_lt h.rest.1, fun x task => h.rest.2 x ?_⟩
      rwa [Table.get?_insert, if_neg (Nat.ne_of_lt h.rest.1)] at task
    · exact h.rest

theorem Replied.newly {a : Act} (h : w.Replied (w.act a) k es) : w.newly a = es := by
  rw [newly_of_events h.events]
  simp [Function.comp_def]

/-- The task whose turn it is hands the message to the listener of the server, which is still
there to receive it. -/
structure Receives (w : World) (k : TaskId) (s : ServerId) (c : Server) (m : Message) : Prop where
  task : w.tasks.get? k = some ⟨.deliver (.engine (.server s)) m, false⟩
  server : w.servers.get? s = some c
  alive : c.seat.gone = false

/-- The message is a valid request that comes in time. -/
def Accepts (w : World) (m : Message) : Prop :=
  m.attributes.isRequest = true ∧ m.attributes.isValid = true ∧
    m.attributes.isExpired w.wall = false

theorem judge_of_accepts (fit : w.Accepts m) : c.judge w.wall m =
    match m.attributes.sink.bind c.handler? with
    | some h => .served h
    | none => .unserved (Server.unservedAnswer m.attributes
        (m.attributes.sink.getD Address.any)) := by
  obtain ⟨request, valid, early⟩ := fit
  rw [Server.judge, request, valid, early]
  rfl

theorem judge_of_not_accepts (unfit : ¬w.Accepts m) : c.judge w.wall m = .ignored := by
  simp only [Server.judge]
  split
  · rename_i fit
    simp only [Bool.and_eq_true, Bool.not_eq_true'] at fit
    exact absurd ⟨fit.1.1, fit.1.2, fit.2⟩ unfit
  · rfl

theorem Replied.of_without (h : (w.without k).Replied v k es) : w.Replied v k es :=
  ⟨h.events, h.rest⟩

/-- What a server makes of a message that it receives. -/
theorem run_of_receives (h : w.Receives k s c m) : w.run k =
    ((w.without k).record (.delivered (.engine (.server s)) m)).dispatch k s c m := by
  have server : (w.without k).servers.get? s = some c := h.server
  simp only [run_of_task h.task, work, deliver, server, h.alive, Bool.false_eq_true, if_false]
  rfl

/-- A message that is not to be served leads to nothing. -/
theorem turn_ignored (tidy : w.Tidy) (h : w.Receives k s c m) (unfit : ¬w.Accepts m) :
    w.Replied (w.run k) k [.delivered (.engine (.server s)) m] := by
  have idle := Idle.without tidy h.task
  simp only [run_of_receives h, dispatch, record_keeps, without_keeps, judge_of_not_accepts unfit]
  exact (idle.of_same (v := (w.without k).record _) rfl).replied.record.of_without

/-- A request for a method that has no handler is answered so. -/
theorem turn_unserved (tidy : w.Tidy) (h : w.Receives k s c m) (fit : w.Accepts m)
    (unserved : m.attributes.sink.bind c.handler? = none)
    (dated : ∀ id, (w.run k).ids.HasIssued id → id.isValid = true) :
    ∃ r, r.Responds m ∧
      r.outcome = .error (.remote ⟨.notFound,
        "no handler registered for " ++ (m.attributes.sink.getD Address.any).text⟩) ∧
      w.Replied (w.run k) k
        [.delivered (.engine (.server s)) m, .answered s m r, .sent c.seat.link r] := by
  have judged := judge_of_accepts (c := c) fit
  simp only [unserved] at judged
  simp only [run_of_receives h, dispatch, record_keeps, without_keeps, judged] at dated ⊢
  have idle := (Idle.without tidy h.task).of_same
    (v := (w.without k).record (.delivered (.engine (.server s)) m)) rfl
  have replies := Replies.unserved c _ h.server h.alive judged
  obtain ⟨r, responds, finish, replied⟩ :=
    answer_responds idle h.server replies fit.1 fit.2.1 dated
  refine ⟨r, responds, ?_, replied.record.of_without⟩
  rcases replies.outcome finish with ⟨hd, job, -⟩ | ⟨-, -, -, -, -, -, outcome⟩
  · cases job
  · exact outcome

/-- A handler that takes no time is done with in the turn of the delivery. -/
theorem turn_served (tidy : w.Tidy) (h : w.Receives k s c m) (fit : w.Accepts m) {hd : Handler}
    (served : m.attributes.sink.bind c.handler? = some hd) (brief : hd.delay = 0)
    (dated : ∀ id, (w.run k).ids.HasIssued id → id.isValid = true) :
    ∃ r, r.Responds m ∧ r.outcome = (hd.run m).outcome ∧ w.Replied (w.run k) k
      [.delivered (.engine (.server s)) m, .handled s hd.key m, .answered s m r,
        .sent c.seat.link r] := by
  have judged := judge_of_accepts (c := c) fit
  simp only [served] at judged
  simp only [run_of_receives h, dispatch, record_keeps, without_keeps, judged, handle, brief,
    handleNow] at dated ⊢
  have idle := (Idle.without tidy h.task).of_same
    (v := ((w.without k).record (.delivered (.engine (.server s)) m)).record
      (.handled s hd.key m)) rfl
  obtain ⟨r, responds, finish, replied⟩ :=
    answer_responds idle h.server (.ended (w := w) hd) fit.1 fit.2.1 dated
  exact ⟨r, responds, Ending.outcome_answer finish, replied.record.record.of_without⟩

/-- A handler that takes time is waited for. -/
theorem turn_handling (h : w.Receives k s c m) (fit : w.Accepts m) {hd : Handler}
    (served : m.attributes.sink.bind c.handler? = some hd) (slow : hd.delay ≠ 0) :
    w.newly (.turn k) = [.delivered (.engine (.server s)) m, .handled s hd.key m] ∧
      (w.run k).tasks.get? k = some ⟨.handle s hd m, false⟩ := by
  have judged := judge_of_accepts (c := c) fit
  simp only [served] at judged
  have same : w.run k = (((w.without k).record (.delivered (.engine (.server s)) m)).record
      (.handled s hd.key m)).sleep k hd.delay (.handle s hd m) := by
    simp only [run_of_receives h, dispatch, record_keeps, without_keeps, judged, handle]
  have events : (w.act (.turn k)).events = [(w.now, .handled s hd.key m),
      (w.now, .delivered (.engine (.server s)) m)] ++ w.events := congrArg World.events same
  refine ⟨newly_of_events events, ?_⟩
  rw [same, sleep_self]

/-- The end of a handler that has been waited for. -/
theorem turn_handled (tidy : w.Tidy) {hd : Handler}
    (task : w.tasks.get? k = some ⟨.handle s hd m, false⟩) (server : w.servers.get? s = some c)
    (request : m.attributes.isRequest = true) (valid : m.attributes.isValid = true)
    (dated : ∀ id, (w.run k).ids.HasIssued id → id.isValid = true) :
    ∃ r, r.Responds m ∧ r.outcome = (hd.run m).outcome ∧
      w.Replied (w.run k) k [.answered s m r, .sent c.seat.link r] := by
  rw [run_of_task task] at dated ⊢
  simp only [work, handleNow, releaseAfter_keeps] at dated ⊢
  obtain ⟨r, responds, finish, replied⟩ :=
    answer_responds (Idle.without tidy task) server (.ended (w := w) hd) request valid dated
  exact ⟨r, responds, Ending.outcome_answer finish, (replied.release _).of_without⟩

/-- The turn in which an answer is passed on, and one in which the task is found to be gone. -/
theorem turn_replying (tidy : w.Tidy) (rest : w.KeepsTo (·.isReply = true) k) :
    w.newly (.turn k) = [] := by
  suffices (w.act (.turn k)).events = [] ++ w.events from newly_of_events this
  cases ht : w.tasks.get? k with
  | none => simp [act, run, ht]
  | some x =>
    obtain ⟨j, cancelled⟩ := x
    cases cancelled with
    | true => simp [act, run, ht]
    | false =>
      have reply := rest.2 _ ht
      cases j with
      | send l r after =>
        cases after with
        | answer s =>
          simp only [act, run_of_task ht, releaseAfter_keeps, work]
          exact (sendNow_answer (Idle.without tidy ht) l).events
        | _ => cases reply
      | _ => cases reply

/-- What happens in the turns of a task during some acts, in order. -/
def deeds (k : TaskId) : World → List Act → List Event
  | _, [] => []
  | w, .turn t :: as => (if t = k then w.newly (.turn t) else []) ++ deeds k (w.act (.turn t)) as
  | w, a :: as => deeds k (w.act a) as

theorem deeds_turn (w : World) (k : TaskId) (as : List Act) :
    w.deeds k (.turn k :: as) = w.newly (.turn k) ++ (w.run k).deeds k as := by
  simp [deeds, act]

theorem deeds_of_ne {a : Act} (other : a ≠ .turn k) (as : List Act) :
    w.deeds k (a :: as) = (w.act a).deeds k as := by
  cases a with
  | turn t =>
    have ht : t ≠ k := fun ht => other (ht ▸ rfl)
    simp [deeds, ht]
  | _ => rfl

variable {as : List Act}

theorem deeds_of_reply (tidy : w.Tidy) (run : w.CanRun as) (rest : w.KeepsTo (·.isReply = true) k) :
    w.deeds k as = [] := by
  have kept : Kept (fun _ _ => True) fun a => a.2.KeepsTo (·.isReply = true) k :=
    ⟨fun _ ho _ h => h.outset ho,
      fun tidy hm h => h.move hm tidy fun _ _ _ _ leads => leads.isReply⟩
  induction as generalizing w with
  | nil => rfl
  | cons a as ih =>
    obtain ⟨tidy', rest'⟩ := kept.act run.1 trivial tidy rest
    by_cases ha : a = .turn k
    · subst ha
      rw [deeds_turn, turn_replying tidy rest]
      exact ih tidy' run.2 rest'
    · rw [deeds_of_ne ha]
      exact ih tidy' run.2 rest'

theorem Replied.deeds (h : w.Replied (w.run k) k es) (tidy : w.Tidy)
    (run : w.CanRun (.turn k :: as)) : w.deeds k (.turn k :: as) = es := by
  have quiet := deeds_of_reply (World.grows_act tidy run.1).1 run.2 h.rest
  rw [deeds_turn, Replied.newly (a := .turn k) h]
  exact (congrArg (es ++ ·) quiet).trans (List.append_nil es)

/-- A handler that is waited for ends in the next turn of its task, and not before. -/
theorem deeds_of_handling (tidy : w.Tidy) (wakeful : w.Wakeful) (run : w.CanRun as) {hd : Handler}
    (task : w.tasks.get? k = some ⟨.handle s hd m, false⟩) {p : Seat}
    (seat : w.seat? (.server s) = some p) (request : m.attributes.isRequest = true)
    (valid : m.attributes.isValid = true)
    (dated : ∀ id, (w.after as).ids.HasIssued id → id.isValid = true) :
    (.turn k ∈ as → ∃ r, r.Responds m ∧ r.outcome = (hd.run m).outcome ∧
      w.deeds k as = [.answered s m r, .sent p.link r]) ∧
    (.turn k ∉ as → w.deeds k as = [] ∧
      (w.after as).tasks.get? k = some ⟨.handle s hd m, false⟩) := by
  induction as generalizing w p with
  | nil => exact ⟨fun h => (nomatch h), fun _ => ⟨rfl, task⟩⟩
  | cons a as ih =>
    have grows := World.grows_act tidy run.1
    by_cases ha : a = .turn k
    · subst ha
      refine ⟨fun _ => ?_, fun h => absurd List.mem_cons_self h⟩
      obtain ⟨c, server, rfl⟩ := Option.map_eq_some_iff.mp seat
      obtain ⟨r, responds, outcome, replied⟩ := turn_handled tidy task server request valid
        fun id issued => dated id ((World.grows_after grows.1 run.2).2.hasIssued issued)
      exact ⟨r, responds, outcome, replied.deeds tidy run⟩
    · have stays := wakeful.act_keeps tidy run.1 task rfl ha rfl
      obtain ⟨q, seat', moved⟩ := grows.2.seats _ p seat
      have wakeful := (Wakeful.kept.act run.1 trivial tidy wakeful).2
      have next := ih grows.1 wakeful run.2 stays seat' dated
      have mem : Act.turn k ∈ a :: as ↔ .turn k ∈ as := by simp [Ne.symm ha]
      rw [mem, deeds_of_ne ha, ← moved.link]
      exact next

/-! ## One response per request -/

/-- What the turns of a task show from the one on in which it hands a message to a server's
listener, if the acts come after it. -/
inductive Yields (w : World) (k : TaskId) (s : ServerId) (c : Server) (m : Message)
    (later : List Act) : List Event → Prop
  /-- A message that is no request, is invalid or comes too late is ignored. -/
  | ignored (unfit : ¬w.Accepts m) : Yields w k s c m later [.delivered (.engine (.server s)) m]
  /-- A request that no handler serves is answered so. -/
  | unserved (fit : w.Accepts m) (unserved : m.attributes.sink.bind c.handler? = none) (r : Message)
      (responds : r.Responds m) (outcome : r.outcome = .error (.remote ⟨.notFound,
        "no handler registered for " ++ (m.attributes.sink.getD Address.any).text⟩)) :
    Yields w k s c m later
      [.delivered (.engine (.server s)) m, .answered s m r, .sent c.seat.link r]
  /-- A request whose handler ends is answered with what the handler ends with. -/
  | ended (fit : w.Accepts m) (h : Handler) (served : m.attributes.sink.bind c.handler? = some h)
      (ends : h.delay = 0 ∨ .turn k ∈ later) (r : Message) (responds : r.Responds m)
      (outcome : r.outcome = (h.run m).outcome) :
    Yields w k s c m later [.delivered (.engine (.server s)) m, .handled s h.key m,
      .answered s m r, .sent c.seat.link r]
  /-- A request whose handler has not ended is at this handler. -/
  | handling (fit : w.Accepts m) (h : Handler) (served : m.attributes.sink.bind c.handler? = some h)
      (slow : h.delay ≠ 0) (runs : .turn k ∉ later)
      (waits : (w.after (.turn k :: later)).tasks.get? k = some ⟨.handle s h m, false⟩) :
    Yields w k s c m later [.delivered (.engine (.server s)) m, .handled s h.key m]

theorem Receives.yields (h : w.Receives k s c m) (tidy : w.Tidy) (wakeful : w.Wakeful)
    (run : w.CanRun (.turn k :: as))
    (dated : ∀ id, (w.after (.turn k :: as)).ids.HasIssued id → id.isValid = true) :
    w.Yields k s c m as (w.deeds k (.turn k :: as)) := by
  have next := World.grows_act tidy run.1
  have dated' : ∀ id, (w.run k).ids.HasIssued id → id.isValid = true :=
    fun id issued => dated id ((World.grows_after next.1 run.2).2.hasIssued issued)
  by_cases fit : w.Accepts m
  · cases served : m.attributes.sink.bind c.handler? with
    | none =>
      obtain ⟨r, responds, outcome, replied⟩ := turn_unserved tidy h fit served dated'
      rw [replied.deeds tidy run]
      exact .unserved fit served r responds outcome
    | some hd =>
      by_cases brief : hd.delay = 0
      · obtain ⟨r, responds, outcome, replied⟩ := turn_served tidy h fit served brief dated'
        rw [replied.deeds tidy run]
        exact .ended fit hd served (.inl brief) r responds outcome
      · obtain ⟨seen, task⟩ := turn_handling h fit served brief
        have seat : w.seat? (.server s) = some c.seat := by simp [seat?, h.server]
        obtain ⟨p, seat, moved⟩ := next.2.seats _ _ seat
        obtain ⟨ends, waits⟩ := deeds_of_handling next.1
          (Wakeful.kept.act run.1 trivial tidy wakeful).2 run.2 task seat fit.1 fit.2.1 dated
        rw [deeds_turn, seen]
        by_cases runs : Act.turn k ∈ as
        · obtain ⟨r, responds, outcome, seen⟩ := ends runs
          have seen : (w.run k).deeds k as = _ := seen
          rw [seen, moved.link]
          exact .ended fit hd served (.inr runs) r responds outcome
        · obtain ⟨seen, waits⟩ := waits runs
          have seen : (w.run k).deeds k as = _ := seen
          rw [seen]
          exact .handling fit hd served brief runs waits
  · rw [(turn_ignored tidy h fit).deeds tidy run]
    exact .ignored fit

/-- A message for a server that is gone, or never was, is lost. -/
theorem receives_or_lost
    (task : w.tasks.get? k = some ⟨.deliver (.engine (.server s)) m, false⟩) :
    (∃ c, w.Receives k s c m) ∨ w.run k = w.without k := by
  have lost : (w.without k).deliver k (.engine (.server s)) m = w.without k →
      w.run k = w.without k := by
    intro same
    rw [run_of_task task, work, same]
    rfl
  cases hs : w.servers.get? s with
  | none => exact .inr (lost (by simp [deliver, hs]))
  | some c =>
    cases alive : c.seat.gone with
    | true => exact .inr (lost (by simp [deliver, hs, alive]))
    | false => exact .inl ⟨c, task, hs, alive⟩

/-- What is under way at a handler was delivered in a turn of its own task. -/
theorem received_of_handling (tidy : w.Tidy) (idle : ∀ k, w.tasks.get? k = none)
    (run : w.CanRun as) {x : Task} {h : Handler} (task : (w.after as).tasks.get? k = some x)
    (job : x.job = .handle s h m) :
    ∃ ps qs c, as = ps ++ .turn k :: qs ∧ (w.after ps).Receives k s c m := by
  induction as using List.reverseRecOn generalizing x h with
  | nil =>
    rw [after_nil, idle k] at task
    cases task
  | append_singleton as a ih =>
    obtain ⟨run, possible, -⟩ := Along.append.mp run
    have tidy' := (World.grows_after tidy run).1
    have earlier : ∀ {y : Task} {h : Handler}, (w.after as).tasks.get? k = some y →
        y.job = .handle s h m →
        ∃ ps qs c, as ++ [a] = ps ++ .turn k :: qs ∧ (w.after ps).Receives k s c m := by
      intro y h task job
      obtain ⟨ps, qs, c, rfl, receives⟩ := ih run task job
      exact ⟨ps, qs ++ [a], c, by simp, receives⟩
    rw [after_append, after_cons, after_nil] at task
    rcases act_handling tidy' possible task job with ⟨y, hy, same⟩ | ⟨rfl, j, hj, hand⟩
    · exact earlier hy same
    · cases hand with
      | handling h' => exact earlier hj rfl
      | delivery =>
        rcases receives_or_lost hj with ⟨c, receives⟩ | lost
        · exact ⟨as, [], c, rfl, receives⟩
        · have task : ((w.after as).run k).tasks.get? k = some x := task
          rw [lost] at task
          simp at task

end World

open World in
/-- **One response per request, none otherwise.** Each delivery of a message to the listener of a
server that is still there leads to what `Yields` says, whatever happens after it: a valid request
that comes in time enters the handler that served its method at that moment, once, and the server
passes one valid response to its link when the handler ends, or at once if there is no handler;
any other message leads to nothing. And a server receives, handles and answers nothing but in the
turns of the tasks that deliver to it. -/
theorem one_response_per_request {w : World} {as : List Act} (new : w.IsNew) (run : w.CanRun as)
    (dated : ∀ id, (w.after as).ids.HasIssued id → id.isValid = true) :
    (∀ ps k qs s c m, as = ps ++ .turn k :: qs → (w.after ps).Receives k s c m →
      (w.after ps).Yields k s c m qs ((w.after ps).deeds k (.turn k :: qs))) ∧
    ∀ ps a qs s m e, as = ps ++ a :: qs → e ∈ (w.after ps).newly a → e.Concerns s m →
      ∃ k os rs c, a = .turn k ∧ ps ++ [a] = os ++ .turn k :: rs ∧
        (w.after os).Receives k s c m := by
  have idle : ∀ k, w.tasks.get? k = none := by
    obtain ⟨wall, ids, rfl⟩ := new
    exact fun k => rfl
  refine ⟨fun ps k qs s c m has receives => ?_, fun ps a qs s m e has he concerns => ?_⟩
  · subst has
    obtain ⟨runPs, runQs⟩ := Along.append.mp run
    obtain ⟨tidy, wakeful⟩ :=
      Wakeful.kept.run runPs (runPs.mono fun _ _ _ => trivial) (.new new) (.new new)
    rw [after_append] at dated
    exact receives.yields tidy wakeful runQs dated
  · subst has
    obtain ⟨runPs, possible, -⟩ := Along.append.mp run
    have tidy := (World.grows_after (.new new) runPs).1
    obtain ⟨k, j, rfl, task, stems⟩ := newly_dealt tidy possible he concerns.deals
    cases concerns.inHand stems with
    | delivery =>
      rcases receives_or_lost task with ⟨c, receives⟩ | lost
      · exact ⟨k, ps, [], c, rfl, rfl, receives⟩
      · have same : ((w.after ps).act (.turn k)).events = [] ++ (w.after ps).events := by
          rw [act, lost]
          rfl
        rw [newly_of_events same] at he
        cases he
    | handling h =>
      obtain ⟨os, rs, c, rfl, receives⟩ := received_of_handling (.new new) idle runPs task rfl
      exact ⟨k, os, rs ++ [.turn k], c, rfl, by simp, receives⟩

/-- A handler that takes ten milliseconds fails; meanwhile it is taken off the server and time
passes on the calendar. Its failure is answered all the same, once. -/
theorem one_response_of_slow_handler :
    let ids : MessageId.Source := { issue := fun n => .stamped 1 (BitVec.ofNat 74 n) }
    let method : Address := ⟨"server", 2, 1, 1⟩
    let slow : Handler := ⟨7, 10, fun _ => .failed (.status ⟨.unavailable, "busy"⟩)⟩
    let w : World := { wall := 0, ids := ids }
    let ps : List Act := [.command (.addLink ⟨"server", 2, 1, 0⟩), .command (.addServer 0),
      .command (.enter (.serve 0 method slow)), .command (.addLink ⟨"client", 1, 1, 0⟩),
      .command (.addCaller 1 false), .command (.invoke 0 method none .standard), .turn 2]
    let qs : List Act := [.command (.unserve 0 method slow), .clock 9000000, .fire 10, .turn 3,
      .turn 4]
    w.IsNew ∧ w.CanRun (ps ++ .turn 3 :: qs) ∧
      (∀ id, (w.after (ps ++ .turn 3 :: qs)).ids.HasIssued id → id.isValid = true) ∧
      ∃ (c : Server) (m : Message) (h : Handler) (r : Message),
        (w.after ps).Receives 3 0 c m ∧ r.Responds m ∧ r.outcome = (h.run m).outcome ∧
        (w.after ps).deeds 3 (.turn 3 :: qs) = [.delivered (.engine (.server 0)) m,
          .handled 0 h.key m, .answered 0 m r, .sent c.seat.link r] := by
  intro ids method slow w ps qs
  have new : w.IsNew := ⟨0, ids, rfl⟩
  have run : w.CanRun (ps ++ .turn 3 :: qs) := by decide +kernel
  have dated : ∀ id, (w.after (ps ++ .turn 3 :: qs)).ids.HasIssued id → id.isValid = true := by
    have issued : (w.after (ps ++ .turn 3 :: qs)).ids.issued = 2 := by decide +kernel
    have valid : ∀ n < 2, ((w.after (ps ++ .turn 3 :: qs)).ids.issue n).isValid = true := by
      decide +kernel
    intro id hx
    obtain ⟨n, hn, rfl⟩ := hx
    exact valid n (issued ▸ hn)
  let asked : Attributes :=
    { id := some (ids.issue 0), kind := .request, source := some ⟨"client", 1, 1, 0⟩,
      sink := some method, priority := .interactive, ttl := some 10000 }
  let m : Message := ⟨asked, none⟩
  have delivers : ((w.after ps).tasks.get? 3).any (fun x =>
      !x.cancelled && x.job.delivery? == some (.engine (.server 0), m)) = true := by
    decide +kernel
  have alive : ((w.after ps).servers.get? 0).any (!·.seat.gone) = true := by decide +kernel
  have count : ((w.after ps).deeds 3 (.turn 3 :: qs)).length = 4 := by decide +kernel
  obtain ⟨c, server, alive⟩ := (Option.any_eq_true _ _).mp alive
  obtain ⟨⟨j, cancelled⟩, task, delivers⟩ := (Option.any_eq_true _ _).mp delivers
  simp only [Bool.and_eq_true, Bool.not_eq_true', beq_iff_eq, Job.delivery?_eq_some] at delivers
  obtain ⟨rfl, rfl⟩ := delivers
  have receives : (w.after ps).Receives 3 0 c m := ⟨task, server, by simpa using alive⟩
  have yields := (one_response_per_request new run dated).1 ps 3 qs 0 c m rfl receives
  generalize (w.after ps).deeds 3 (.turn 3 :: qs) = es at count yields ⊢
  cases yields with
  | ended fit h served ends r responds outcome =>
    exact ⟨new, run, dated, c, m, h, r, receives, responds, outcome, rfl⟩
  | _ => cases count

end Switchboard
