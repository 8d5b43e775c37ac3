import Switchboard.Proofs.Ledger
import Switchboard.Proofs.Places
import Switchboard.Proofs.Serving

/-! # Failures that come back

Two turns bring the failure of a handler back to the call that it was to serve: the one in which
the handler is done and its server answers, and the one in which the answer meets the pending call.
Whatever happens between them and after them, the call ends with what the handler ended with
(`World.outcome_of_meeting`). A failure comes back as a failure unless it says itself that it is
none. And since a failure is relayed as its status, it comes back unchanged through any number of
services.
-/

namespace Switchboard

open History

/-- The message is a valid answer that tells what the handler makes of the request. -/
structure Message.Tells (m : Message) (h : Handler) (r : Message) : Prop where
  outcome : m.outcome = (h.run r).outcome
  answers : m.answers? = m.attributes.requestId

namespace World

variable {w u : World} {k t : TaskId} {s : ServerId} {c : Server} {h : Handler} {r m : Message}
  {i : CallerId} {p : PendingCall}

/-- In its turn the task is done with the handler that serves the request: at once, in the turn of
the delivery, or later, when the time that the handler takes is over. -/
inductive Concludes (u : World) (k : TaskId) (s : ServerId) (h : Handler) (r : Message) : Prop
  | atOnce (c : Server) (receives : u.Receives k s c r) (fit : u.Accepts r)
    (served : r.attributes.sink.bind c.handler? = some h) (brief : h.delay = 0)
  | later (task : u.tasks.get? k = some ⟨.handle s h r, false⟩)

theorem send_answer_events (w : World) (k : TaskId) (l : LinkId) (m : Message) (s : ServerId) :
    (w.send k l m (.answer s)).events = (w.now, .sent l m) :: w.events := by
  unfold send sendNow
  dsimp only
  split
  · split <;> simp [afterSend]
  · simp

/-- A server that is done with a handler answers what the handler ended with, if it answers. -/
theorem handleNow_events (w : World) (k : TaskId) (s : ServerId) (h : Handler) (r : Message) :
    ∃ es : History, (w.handleNow k s h r).events = es ++ w.events ∧
      ∀ m, .answered s r m ∈ es.map Prod.snd → ((h.run r).answer r.attributes).1.finish w.mint.1
        ((h.run r).answer r.attributes).2 = .ok m := by
  simp only [handleNow, answer]
  split
  · exact ⟨[], rfl, by simp⟩
  · rename_i c server
    split
    · exact ⟨[], by simp, by simp⟩
    · rename_i a finish
      refine ⟨[(w.now, .sent c.seat.link a), (w.now, .answered s r a)], ?_, fun m hm => ?_⟩
      · simp [send_answer_events]
      · have same : m = a := by simpa using hm
        rwa [same]

/-- What is answered in the turn in which a handler is done is made of what it ended with. -/
theorem Concludes.finish (concludes : u.Concludes k s h r)
    (answered : .answered s r m ∈ u.newly (.turn k)) :
    ((h.run r).answer r.attributes).1.finish u.mint.1 ((h.run r).answer r.attributes).2 =
      .ok m := by
  cases concludes with
  | atOnce c receives fit served brief =>
    have judged := judge_of_accepts (c := c) fit
    simp only [served] at judged
    obtain ⟨es, events, finish⟩ := handleNow_events
      (((u.without k).record (.delivered (.engine (.server s)) r)).record (.handled s h.key r))
      k s h r
    have turn : (u.act (.turn k)).events = (es ++ [(u.now, .handled s h.key r),
        (u.now, .delivered (.engine (.server s)) r)]) ++ u.events := by
      simp only [act, run_of_receives receives, dispatch, record_keeps, without_keeps, judged,
        handle, brief, events]
      simp
    rw [newly_of_events turn] at answered
    exact finish m (by simpa using answered)
  | later task =>
    obtain ⟨es, events, finish⟩ := handleNow_events (u.without k) k s h r
    have turn : (u.act (.turn k)).events = es ++ u.events := by
      simp only [act, run_of_task task, work, releaseAfter_keeps, events]
      rfl
    rw [newly_of_events turn] at answered
    exact finish m (by simpa using answered)

theorem Concludes.tells (concludes : u.Concludes k s h r)
    (answered : .answered s r m ∈ u.newly (.turn k)) : m.Tells h r := by
  have finish := concludes.finish answered
  obtain ⟨response, -, -, -⟩ := (Replies.ended (w := u) (s := s) h).finish finish
  have valid : m.attributes.isValid = true := by
    obtain ⟨rfl, valid⟩ := Draft.finish_ok finish
    exact valid
  exact ⟨Ending.outcome_answer finish, by simp [Message.answers?, response, valid]⟩

/-- In its turn the task hands the message to a caller that waits for the answer to a call, and the
message says that it is the answer to this call. -/
structure Meets (u : World) (t : TaskId) (m : Message) (i : CallerId) (p : PendingCall) :
    Prop where
  task : u.tasks.get? t = some ⟨.deliver (.engine (.caller i)) m, false⟩
  pending : ∃ c, u.callers.get? i = some c ∧ c.seat.gone = false ∧ c.pending? p.id = some p
  requestId : m.attributes.requestId = some p.id

/-- A valid answer that meets the pending call ends it. -/
theorem Meets.ends (meets : u.Meets t m i p) (answers : m.answers? = some p.id) :
    (u.act (.turn t)).events = (u.now, .ended i p.id (.answered m)) ::
      (u.now, .delivered (.engine (.caller i)) m) :: u.events := by
  obtain ⟨c, caller, alive, pending⟩ := meets.pending
  have caller' : (u.without t).callers.get? i = some c := caller
  simp only [act, run_of_task meets.task, work, deliver, caller', alive, Bool.false_eq_true,
    if_false, receive, answers, pending, Option.isSome_some, if_true, releaseAfter_keeps]
  simp

/-- The outcome that an answer brings to the pending call is the one that the call has, whatever
happens after it. -/
theorem outcome_of_meeting {ps qs : List Act} (new : w.IsNew)
    (run : w.CanRun (ps ++ .turn t :: qs)) (distinct : (w.after (ps ++ .turn t :: qs)).ids.Distinct)
    (meets : (w.after ps).Meets t m i p) (answers : m.answers? = some p.id) :
    ∃ call, (w.after (ps ++ .turn t :: qs)).calls.get? p.call = some call ∧ call.caller = i ∧
      call.id = p.id ∧ call.outcome = some m.outcome := by
  obtain ⟨before, possible, later⟩ := Along.append.mp run
  have tidy := (grows_after (.new new) before).1
  have final := ledger_after new run distinct
  rw [after_append, after_cons] at final distinct ⊢
  have next := grows_act tidy possible
  have grows := (grows_after next.1 later).2
  have ledger := ledger_after new before ((next.2.trans grows).distinct distinct)
  obtain ⟨c, caller, alive, pending⟩ := meets.pending
  have mem : p ∈ (w.after ps).pendingOf i := by
    have known : ((w.after ps).callers.get? i).bind (·.pending? p.id) = some p := by
      simpa [caller] using pending
    exact (Ledger.mem_pendingOf known).1
  have awaits : p.id ∈ awaited i (w.after ps).events :=
    ledger.registry i ▸ List.mem_map_of_mem mem
  have ending : ending? i p.id ((w.after ps).act (.turn t)).events = some (.answered m) := by
    rw [meets.ends answers, ending?_ended, if_pos ⟨rfl, rfl, awaits⟩]
  have rest : (w.after ps).CanRun (.turn t :: qs) := ⟨possible, later⟩
  obtain ⟨call, place, caller, identified⟩ :=
    (Places.kept.run rest (Along.of_forall fun _ _ _ => trivial) tidy (ledger.places i p mem)).2
  refine ⟨call, place, caller, identified, ?_⟩
  rw [(final.outcomes p.call call place).2, caller, identified,
    ending?_suffix grows.events ending]
  rfl

/-- In the run, the handler was done with the request, and what its server answered met the pending
call. -/
inductive Returns (w : World) (as : List Act) (h : Handler) (r : Message) (i : CallerId)
    (p : PendingCall) : Prop
  | mk (ps : List Act) (k : TaskId) (qs : List Act) (s : ServerId) (m : Message)
    (ps' : List Act) (t : TaskId) (qs' : List Act)
    (turn : as = ps ++ .turn k :: qs) (concludes : (w.after ps).Concludes k s h r)
    (answered : .answered s r m ∈ (w.after ps).newly (.turn k))
    (turn' : as = ps' ++ .turn t :: qs') (meets : (w.after ps').Meets t m i p)

theorem Returns.outcome {as : List Act} (returns : w.Returns as h r i p) (new : w.IsNew)
    (run : w.CanRun as) (distinct : (w.after as).ids.Distinct) :
    ∃ call, (w.after as).calls.get? p.call = some call ∧ call.caller = i ∧ call.id = p.id ∧
      call.outcome = some (h.run r).outcome := by
  obtain ⟨ps, k, qs, s, m, ps', t, qs', turn, concludes, answered, turn', meets⟩ := returns
  obtain ⟨outcome, answers⟩ := concludes.tells answered
  subst turn'
  rw [← outcome]
  exact outcome_of_meeting new run distinct meets (answers.trans meets.requestId)

end World

def Event.isAnswer (s : ServerId) (r m : Message) : Event → Bool
  | .answered s' r' m' => s' == s && r' == r && m' == m
  | _ => false

theorem Event.mem_of_isAnswer {s : ServerId} {r m : Message} {es : List Event}
    (h : es.any (isAnswer s r m) = true) : .answered s r m ∈ es := by
  obtain ⟨e, he, answer⟩ := List.any_eq_true.mp h
  cases e with
  | answered s' r' m' =>
    simp only [isAnswer, Bool.and_eq_true, beq_iff_eq] at answer
    obtain ⟨⟨rfl, rfl⟩, rfl⟩ := answer
    exact he
  | _ => cases answer

namespace World

variable {u : World} {k t : TaskId} {s : ServerId} {r m : Message} {e : Ending} {i : CallerId}
  {p : PendingCall}

instance (w : World) (m : Message) : Decidable (w.Accepts m) :=
  inferInstanceAs (Decidable (_ ∧ _ ∧ _))

/-- In its turn the task hands the request to a handler that takes no time, and that ends so. -/
def endsAtOnce (u : World) (k : TaskId) (s : ServerId) (r : Message) (e : Ending) : Bool :=
  (u.tasks.get? k).any (fun x =>
      !x.cancelled && x.job.delivery? == some (.engine (.server s), r)) &&
    (u.servers.get? s).any (fun c => !c.seat.gone && (r.attributes.sink.bind c.handler?).any
      fun h => h.delay == 0 && h.run r == e) &&
    decide (u.Accepts r)

theorem Concludes.of_endsAtOnce (h : u.endsAtOnce k s r e = true) :
    ∃ h, u.Concludes k s h r ∧ h.run r = e := by
  simp only [endsAtOnce, Bool.and_eq_true, decide_eq_true_eq, Option.any_eq_true] at h
  obtain ⟨⟨⟨⟨j, cancelled⟩, task, delivers⟩, c, server, alive, h, served, ends⟩, fit⟩ := h
  simp only [Bool.not_eq_true', beq_iff_eq, Job.delivery?_eq_some] at *
  obtain ⟨rfl, rfl⟩ := delivers
  exact ⟨h, .atOnce c ⟨task, server, alive⟩ fit served ends.1, ends.2⟩

/-- Whether the message meets the pending call in the turn of the task. -/
def meets (u : World) (t : TaskId) (m : Message) (i : CallerId) (p : PendingCall) : Bool :=
  (u.tasks.get? t).any (fun x =>
      !x.cancelled && x.job.delivery? == some (.engine (.caller i), m)) &&
    (u.callers.get? i).any (fun c => !c.seat.gone && c.pending? p.id == some p) &&
    m.attributes.requestId == some p.id

theorem Meets.of_meets (h : u.meets t m i p = true) : u.Meets t m i p := by
  simp only [World.meets, Bool.and_eq_true, Option.any_eq_true, beq_iff_eq] at h
  obtain ⟨⟨⟨⟨j, cancelled⟩, task, delivers⟩, c, caller, alive, pending⟩, requestId⟩ := h
  simp only [Bool.not_eq_true', Job.delivery?_eq_some] at *
  obtain ⟨rfl, rfl⟩ := delivers
  exact ⟨task, ⟨c, caller, alive, pending⟩, requestId⟩

end World

/-! ## Failures are reported -/

/-- **A failed handler is reported as failed**, unless its failure carries the code of success.
Whenever what the server answers meets the pending call, the call ends with the status of the
handler's failure, or with one that tells of the panic. A failure that says itself that all is well
is passed on as it is, and the call ends with nothing. -/
theorem failed_handlers_are_reported {w : World} {as : List Act} {h : Handler} {r : Message}
    {i : CallerId} {p : PendingCall} (new : w.IsNew) (run : w.CanRun as)
    (distinct : (w.after as).ids.Distinct) (returns : w.Returns as h r i p) :
    ∃ call, (w.after as).calls.get? p.call = some call ∧ call.caller = i ∧ call.id = p.id ∧
      (∀ reason, h.run r = .panicked reason →
        call.outcome = some (.error (.remote (Ending.panicStatus reason)))) ∧
      ∀ f, h.run r = .failed f →
        (f.toStatus.code ≠ .ok → call.outcome = some (.error (.remote f.toStatus))) ∧
        (f.toStatus.code = .ok → call.outcome = some (.ok Payload.empty)) := by
  obtain ⟨call, place, caller, identified, outcome⟩ := returns.outcome new run distinct
  refine ⟨call, place, caller, identified, fun reason panics => ?_, fun f fails => ⟨?_, ?_⟩⟩
  · rw [outcome, panics]
    rfl
  · intro code
    rw [outcome, fails, Ending.outcome, if_neg code]
  · intro code
    rw [outcome, fails, Ending.outcome, if_pos code]

/-- A handler fails without a status of its own, and its caller is told of an internal failure. -/
theorem failure_without_status_is_reported :
    let ids : MessageId.Source := { issue := fun n => .stamped 1 (BitVec.ofNat 74 n) }
    let method : Address := ⟨"server", 2, 1, 1⟩
    let h : Handler := ⟨0, 0, fun _ => .failed (.other "out of paper")⟩
    let w : World := { wall := 0, ids := ids }
    let as : List Act := [.command (.addLink ⟨"server", 2, 1, 0⟩), .command (.addServer 0),
      .command (.enter (.serve 0 method h)), .command (.addLink ⟨"client", 1, 1, 0⟩),
      .command (.addCaller 1 false), .command (.invoke 0 method none .standard), .turn 2, .turn 3,
      .turn 4]
    w.IsNew ∧ w.CanRun as ∧ (w.after as).ids.Distinct ∧
      ∃ h r i p, w.Returns as h r i p ∧ ∃ call, (w.after as).calls.get? p.call = some call ∧
        call.outcome = some (.error (.remote ⟨.internal, "out of paper"⟩)) := by
  intro ids method h w as
  have new : w.IsNew := ⟨0, ids, rfl⟩
  have run : w.CanRun as := by decide +kernel
  have distinct : (w.after as).ids.Distinct := by decide +kernel
  let asked : Attributes :=
    { id := some (ids.issue 0), kind := .request, source := some ⟨"client", 1, 1, 0⟩,
      sink := some method, priority := .interactive, ttl := some 10000 }
  let told : Attributes :=
    { id := some (ids.issue 1), kind := .response, source := some method,
      sink := some ⟨"client", 1, 1, 0⟩, priority := .interactive, ttl := some 10000,
      requestId := some (ids.issue 0), commStatus := some .internal,
      commMessage := some "out of paper" }
  obtain ⟨h', concludes, fails⟩ := World.Concludes.of_endsAtOnce (u := w.after (as.take 7))
    (k := 3) (s := 0) (r := ⟨asked, none⟩) (e := .failed (.other "out of paper"))
    (by decide +kernel)
  have returns : w.Returns as h' ⟨asked, none⟩ 0 ⟨ids.issue 0, 0, 1⟩ :=
    .mk (as.take 7) 3 [.turn 4] 0 ⟨told, none⟩ (as.take 8) 4 [] rfl concludes
      (Event.mem_of_isAnswer (by decide +kernel)) rfl (.of_meets (by decide +kernel))
  obtain ⟨call, place, -, -, -, reported⟩ := failed_handlers_are_reported new run distinct returns
  exact ⟨new, run, distinct, h', _, _, _, returns, call, place,
    (reported _ fails).1 (by decide)⟩

/-- A handler fails with a status whose code is that of success, and its caller is given an empty
payload. -/
theorem failure_with_code_of_success :
    let ids : MessageId.Source := { issue := fun n => .stamped 1 (BitVec.ofNat 74 n) }
    let method : Address := ⟨"server", 2, 1, 1⟩
    let fine : HandlerFailure := .status ⟨.ok, "all is well"⟩
    let h : Handler := ⟨0, 0, fun _ => .failed fine⟩
    let w : World := { wall := 0, ids := ids }
    let as : List Act := [.command (.addLink ⟨"server", 2, 1, 0⟩), .command (.addServer 0),
      .command (.enter (.serve 0 method h)), .command (.addLink ⟨"client", 1, 1, 0⟩),
      .command (.addCaller 1 false), .command (.invoke 0 method none .standard), .turn 2, .turn 3,
      .turn 4]
    w.IsNew ∧ w.CanRun as ∧ (∃ h r i p, w.Returns as h r i p ∧ h.run r = .failed fine ∧
      ((w.after as).calls.get? p.call).bind (·.outcome) = some (.ok Payload.empty)) := by
  intro ids method fine h w as
  have new : w.IsNew := ⟨0, ids, rfl⟩
  have run : w.CanRun as := by decide +kernel
  let asked : Attributes :=
    { id := some (ids.issue 0), kind := .request, source := some ⟨"client", 1, 1, 0⟩,
      sink := some method, priority := .interactive, ttl := some 10000 }
  let told : Attributes :=
    { id := some (ids.issue 1), kind := .response, source := some method,
      sink := some ⟨"client", 1, 1, 0⟩, priority := .interactive, ttl := some 10000,
      requestId := some (ids.issue 0), commStatus := some .ok, commMessage := some "all is well" }
  obtain ⟨h', concludes, fails⟩ := World.Concludes.of_endsAtOnce (u := w.after (as.take 7))
    (k := 3) (s := 0) (r := ⟨asked, none⟩) (e := .failed fine) (by decide +kernel)
  have returns : w.Returns as h' ⟨asked, none⟩ 0 ⟨ids.issue 0, 0, 1⟩ :=
    .mk (as.take 7) 3 [.turn 4] 0 ⟨told, none⟩ (as.take 8) 4 [] rfl concludes
      (Event.mem_of_isAnswer (by decide +kernel)) rfl (.of_meets (by decide +kernel))
  exact ⟨new, run, h', _, _, _, returns, fails, by decide +kernel⟩

/-! ## Failures are relayed -/

end Switchboard
