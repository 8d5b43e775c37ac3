import Switchboard.Proofs.Lockstep
import Switchboard.Proofs.Relays

/-! # One handler's ending is nobody else's concern

In one turn of a run a handler is done with a request. Let it end otherwise in that turn, with
another payload, with nothing, with a failure or with a panic (`World.runEnding`): then the answer
to this request has another payload or another status, whoever receives it is told so, and nothing
else is different, however the run goes on. The two answers may stand for each other
(`exchange`), which is a likeness, so the runs are in lockstep from that turn on. Main statement:
`endings_are_isolated`.
-/

namespace Switchboard

/-- The handler, if it ended so. -/
def Handler.ending (h : Handler) (e : Ending) : Handler := { h with run := fun _ => e }

def Server.ending (v : Server) (e : Ending) : Server :=
  { v with handlers := v.handlers.map fun x => (x.1, x.2.ending e) }

namespace World

/-- Does a job as far as it can, and a handler that is done in it ends as is said. -/
def workEnding (w : World) (t : TaskId) (e : Ending) : Job → World
  | .handle s h m => w.handleNow t s (h.ending e) m
  | .deliver (.engine (.server s)) m =>
    match w.servers.get? s with
    | none => w
    | some v =>
      if v.seat.gone then w
      else (w.record (.delivered (.engine (.server s)) m)).dispatch t s (v.ending e) m
  | j => w.work t j

/-- A task's turn, in which a handler ends as is said. -/
def runEnding (w : World) (t : TaskId) (e : Ending) : World :=
  let w := { w with ready := w.ready.erase t }
  match w.tasks.get? t with
  | none => w
  | some task =>
    let w := { w with tasks := w.tasks.erase t }
    let w := if task.cancelled then w else w.workEnding t e task.job
    w.releaseAfter t task.job.holds

end World

/-- What the handler's ending makes of the request, once it has an id. -/
def Ending.reply (e : Ending) (request : Message) (fresh : MessageId) : Message :=
  ⟨(e.answer request.attributes).1.identified fresh, (e.answer request.attributes).2⟩

/-- The second event is the first, or tells of the one answer where the first tells of the other,
or of what came of it. -/
inductive Event.Exchanged (a a' : Message) : Event → Event → Prop
  | same (e : Event) : Exchanged a a' e e
  | sent (l : LinkId) : Exchanged a a' (.sent l a) (.sent l a')
  | delivered (l : Listener) : Exchanged a a' (.delivered l a) (.delivered l a')
  | unexpected (i : CallerId) : Exchanged a a' (.unexpected i a) (.unexpected i a')
  | answered (s : ServerId) (r : Message) : Exchanged a a' (.answered s r a) (.answered s r a')
  | ended (i : CallerId) (id : MessageId) :
    Exchanged a a' (.ended i id (.answered a)) (.ended i id (.answered a'))
  | resolved (t : TaskId) : Exchanged a a' (.resolved t a.outcome) (.resolved t a'.outcome)

/-- The second call is the first, or both are calls that the answers are for, and each has the
outcome that its own answer brings. -/
inductive Call.Exchanged (a a' : Message) : Call → Call → Prop
  | same (c : Call) : Exchanged a a' c c
  | answered (c : Call) (answers : a.attributes.requestId = some c.id)
      (outcome : c.outcome = some a.outcome) :
    Exchanged a a' c { c with outcome := some a'.outcome }

/-- In the second world there is the one answer in the place of the other, and the outcomes that
come of it, and nothing else is different: the worlds are in step, and the other calls and whatever
else happened are the same. -/
structure World.Exchanged (a a' : Message) (w v : World) : Prop extends w.InStep v where
  calls : ∀ k, Option.Rel (Call.Exchanged a a') (w.calls.get? k) (v.calls.get? k)
  events : List.Forall₂ (fun x y => y.1 = x.1 ∧ x.2.Exchanged a a' y.2) w.events v.events

/-! ## The two answers -/

/-- Endings differ in nothing but the payload, the status and its text. -/
theorem Ending.reply_attributes (e e' : Ending) (r : Message) (fresh : MessageId) :
    (e'.reply r fresh).attributes = { (e.reply r fresh).attributes with
      commStatus := (e'.reply r fresh).attributes.commStatus
      commMessage := (e'.reply r fresh).attributes.commMessage } := by
  cases e <;> cases e' <;> rfl

theorem Ending.reply_answers (e : Ending) (r : Message) (fresh : MessageId) :
    (e.reply r fresh).attributes.isResponse = true ∧
      (e.reply r fresh).attributes.requestId = r.attributes.id := by
  cases e <;> exact ⟨rfl, rfl⟩

theorem Ending.reply_frame (e e' : Ending) (r : Message) (fresh : MessageId) :
    (e.reply r fresh).frame = (e'.reply r fresh).frame := by
  cases e <;> cases e' <;> rfl

theorem Ending.answer_frame_eq (e e' : Ending) (a : Attributes) :
    (e.answer a).1.attributes.frame = (e'.answer a).1.attributes.frame := by
  cases e <;> cases e' <;> rfl

section Exchange

variable {a a' : Message}

/-- An answer may stand for another one, and the outcome that it brings for that of the other. -/
def exchange (frame : a.frame = a'.frame) (response : a.attributes.isResponse = true) :
    Likeness where
  message m m' := m = m' ∨ m = a ∧ m' = a'
  outcome id o o' := o = o' ∨ a.attributes.requestId = some id ∧ o = a.outcome ∧ o' = a'.outcome
  handler _ := True
  message_refl _ := .inl rfl
  outcome_refl _ _ := .inl rfl
  frame := by
    rintro m m' (rfl | ⟨rfl, rfl⟩)
    · rfl
    · exact frame
  answers := by
    rintro m m' id (rfl | ⟨rfl, rfl⟩) answers
    · exact .inl rfl
    · exact .inr ⟨(Message.answers?_eq_some answers).2.2, rfl, rfl⟩
  handled := by
    rintro h m m' fresh - (rfl | ⟨rfl, rfl⟩) request
    · exact .refl (fun _ => .inl rfl) _
    · rw [Attributes.isResponse_of_isRequest request] at response
      cases response

variable {frame : a.frame = a'.frame} {response : a.attributes.isResponse = true}

theorem Event.Alike.exchanged {e e' : Event} (like : e.Alike (exchange frame response) e') :
    e.Exchanged a a' e' := by
  have notAsked : ∀ {r : Message}, r.attributes.isRequest = true → r ≠ a := by
    rintro r request rfl
    rw [Attributes.isResponse_of_isRequest request] at response
    cases response
  cases like with
  | sent l like =>
    rcases like with rfl | ⟨rfl, rfl⟩
    · exact .same _
    · exact .sent l
  | delivered l like =>
    rcases like with rfl | ⟨rfl, rfl⟩
    · exact .same _
    · exact .delivered l
  | unexpected i like =>
    rcases like with rfl | ⟨rfl, rfl⟩
    · exact .same _
    · exact .unexpected i
  | handled s key request like =>
    rcases like with rfl | ⟨rfl, rfl⟩
    · exact .same _
    · exact absurd rfl (notAsked request)
  | answered s request asked like =>
    obtain rfl := asked.resolve_right fun both => notAsked request both.1
    rcases like with rfl | ⟨rfl, rfl⟩
    · exact .same _
    · exact .answered s _
  | ended i id like =>
    cases like with
    | answered like =>
      rcases like with rfl | ⟨rfl, rfl⟩
      · exact .same _
      · exact .ended i id
    | _ => exact .same _
  | resolved t id like =>
    rcases like with rfl | ⟨-, rfl, rfl⟩
    · exact .same _
    · exact .resolved t
  | _ => exact .same _

theorem Call.Alike.exchanged {x y : Call} (like : x.Alike (exchange frame response) y) :
    x.Exchanged a a' y := by
  obtain ⟨caller, id, outcome, waiter⟩ := x
  obtain ⟨caller', id', outcome', waiter'⟩ := y
  obtain ⟨rfl, rfl, same, rfl⟩ := like
  cases same with
  | none => exact .same _
  | some like =>
    rcases like with rfl | ⟨answers, rfl, rfl⟩
    · exact .same _
    · exact .answered ⟨caller', id', some a.outcome, waiter'⟩ answers rfl

theorem World.Alike.exchanged {w v : World} (h : w.Alike (exchange frame response) v) :
    w.Exchanged a a' v where
  toInStep := h.inStep
  calls k := by
    rcases h.calls.get? k with ⟨hw, hv⟩ | ⟨x, y, hw, hv, like⟩
    · rw [hw, hv]
      exact .none
    · rw [hw, hv]
      exact .some like.exchanged
  events := h.events.imp fun _ _ both => ⟨both.1, both.2.exchanged⟩

end Exchange

theorem Server.handler?_ending (v : Server) (e : Ending) (method : Address) :
    (v.ending e).handler? method = (v.handler? method).map (·.ending e) := by
  obtain ⟨seat, handlers⟩ := v
  simp only [handler?, ending]
  induction handlers with
  | nil => rfl
  | cons x handlers ih =>
    obtain ⟨own, h⟩ := x
    cases here : method == own <;> simp [List.lookup_cons, here, ih]

namespace World

variable {L : Likeness} {w u : World} {k t : TaskId} {s : ServerId} {h : Handler} {r : Message}
  {e : Ending}

theorem runEnding_of_task {j : Job} (task : w.tasks.get? t = some ⟨j, false⟩) :
    w.runEnding t e = ((w.without t).workEnding t e j).releaseAfter t j.holds := by
  simp [runEnding, task, without]

theorem runEnding_of_receives {c : Server} (receives : u.Receives k s c r) : u.runEnding k e =
    ((u.without k).record (.delivered (.engine (.server s)) r)).dispatch k s (c.ending e) r := by
  have server : (u.without k).servers.get? s = some c := receives.server
  rw [runEnding_of_task receives.task]
  simp only [workEnding, server, receives.alive, Bool.false_eq_true, if_false]
  rfl

/-- In the turn in which a handler is done, it is done with after all else that the turn does but
letting the server go, and what was done before does not depend on it. -/
theorem Concludes.turn (concludes : u.Concludes k s h r) :
    ∃ x held, x.ids = u.ids ∧
      (∃ seen : History, x.events = seen ++ u.events ∧ ∀ m, .answered s r m ∉ seen.map Prod.snd) ∧
      (∀ L, Alike L u u → Alike L x x ∧ r.attributes.isRequest = true) ∧
      u.run k = (x.handleNow k s h r).releaseAfter k held ∧
      ∀ e, u.runEnding k e = (x.handleNow k s (h.ending e) r).releaseAfter k held := by
  cases concludes with
  | atOnce c receives fit served brief =>
    have judged := judge_of_accepts (c := c) fit
    simp only [served] at judged
    refine ⟨((u.without k).record (.delivered (.engine (.server s)) r)).record (.handled s h.key r),
      none, rfl, ⟨[(u.now, .handled s h.key r), (u.now, .delivered (.engine (.server s)) r)], rfl,
        by simp⟩, fun L same => ⟨?_, fit.1⟩, ?_, fun e => ?_⟩
    · exact ((same.without k).record (.delivered _ (L.message_refl r))).record
        (.handled s h.key fit.1 (L.message_refl r))
    · simp only [run_of_receives receives, dispatch, record_keeps, without_keeps, judged, handle,
        brief]
      rfl
    · have judged' := judge_of_accepts (c := c.ending e) fit
      have served' : r.attributes.sink.bind (c.ending e).handler? = some (h.ending e) := by
        obtain ⟨method, sink, handler⟩ := Option.bind_eq_some_iff.mp served
        simp [sink, Server.handler?_ending, handler]
      simp only [served'] at judged'
      simp only [runEnding_of_receives receives, dispatch, record_keeps, without_keeps, judged',
        handle, Handler.ending, brief]
      rfl
  | later task =>
    refine ⟨u.without k, some (.server s), rfl, ⟨[], rfl, by simp⟩,
      fun L same => ⟨same.without k, ?_⟩, run_of_task task, fun e => runEnding_of_task task⟩
    rcases same.tasks.get? k with ⟨none, -⟩ | ⟨x, y, hx, -, like⟩
    · rw [task] at none
      cases none
    · cases task.symm.trans hx
      obtain ⟨job, cancelled⟩ := y
      cases like.job with
      | handle s h kind request like => exact request

/-- With its own ending the handler ends as it does by itself. -/
theorem Concludes.runEnding_self (concludes : u.Concludes k s h r) :
    u.runEnding k (h.run r) = u.run k := by
  obtain ⟨x, held, -, -, -, turn, turn'⟩ := concludes.turn
  rw [turn, turn']
  rfl

/-- What is answered in the turn is what the ending makes of the request. -/
theorem Concludes.answered_reply (concludes : u.Concludes k s h r) {m : Message}
    (answered : .answered s r m ∈ (u.runEnding k e).eventsSince u.events.length) :
    m = e.reply r u.mint.1 := by
  obtain ⟨x, held, ids, ⟨seen, before, none⟩, -, -, turn⟩ := concludes.turn
  obtain ⟨es, events, finish⟩ := handleNow_events x k s (h.ending e) r
  have fresh : x.mint.1 = u.mint.1 := congrArg (·.next.1) ids
  have all : (u.runEnding k e).events = (es ++ seen) ++ u.events := by
    rw [turn, (releaseAfter_keeps ..).1, events, before, List.append_assoc]
  rw [eventsSince_of_events all, List.mem_reverse, List.map_append, List.mem_append] at answered
  rw [← fresh]
  exact (Draft.finish_ok (finish m (answered.resolve_right (none m)))).1

/-- Whatever a handler ends with, the worlds after its turn are alike if its answers are. -/
theorem Alike.conclude (same : Alike L u u) (concludes : u.Concludes k s h r)
    (like : Finishes L.message
      (((h.run r).answer r.attributes).1.finish u.mint.1 ((h.run r).answer r.attributes).2)
      ((e.answer r.attributes).1.finish u.mint.1 (e.answer r.attributes).2)) :
    Alike L (u.run k) (u.runEnding k e) := by
  obtain ⟨x, held, ids, -, before, turn, turn'⟩ := concludes.turn
  obtain ⟨same, request⟩ := before L same
  have fresh : x.mint.1 = u.mint.1 := congrArg (·.next.1) ids
  rw [← fresh] at like
  rw [turn, turn']
  exact (same.answer k s request (L.message_refl r) like).releaseAfter k held

end World

/-! ## The run -/

theorem Ending.finishes {R : Message → Message → Prop} (e e' : Ending) (r : Message)
    (fresh : MessageId) (like : R (e.reply r fresh) (e'.reply r fresh)) :
    Finishes R ((e.answer r.attributes).1.finish fresh (e.answer r.attributes).2)
      ((e'.answer r.attributes).1.finish fresh (e'.answer r.attributes).2) := by
  unfold Draft.finish
  rw [← Draft.validate_congr (answer_frame_eq e e' r.attributes) fresh]
  cases ((e.answer r.attributes).1.identified fresh).validate with
  | ok _ => exact .ok like
  | error _ => exact .error _

/-- **Endings are isolated.** In one turn of a run a handler is done with a request, and its server
answers what the ending makes of the request. Let it end otherwise in this turn, and in no other.
The rest of the run is possible as before, and it leads to the same world but for one message: the
answer to this request, which has another payload or another status, is received where it was
received before, and the calls that it is for may have another outcome. Listeners, handlers,
pending calls, all other answers and the outcomes of all other calls are the same. -/
theorem endings_are_isolated {w : World} (new : w.IsNew) {ps qs : List Act} {k : TaskId}
    {s : ServerId} {h : Handler} {r : Message} (run : w.CanRun (ps ++ .turn k :: qs))
    (concludes : (w.after ps).Concludes k s h r) (e : Ending) :
    let u := w.after ps
    let a := (h.run r).reply r u.mint.1
    let a' := e.reply r u.mint.1
    u.runEnding k (h.run r) = u.run k ∧ (∀ m, .answered s r m ∈ u.newly (.turn k) → m = a) ∧
      (∀ m, .answered s r m ∈ (u.runEnding k e).eventsSince u.events.length → m = a') ∧
      a.attributes.requestId = r.attributes.id ∧
      a'.attributes = { a.attributes with
        commStatus := a'.attributes.commStatus
        commMessage := a'.attributes.commMessage } ∧
      (u.runEnding k e).CanRun qs ∧
      (w.after (ps ++ .turn k :: qs)).Exchanged a a' ((u.runEnding k e).after qs) := by
  intro u a a'
  refine ⟨concludes.runEnding_self, fun m answered => ?_, fun m => concludes.answered_reply,
    ((h.run r).reply_answers r _).2, (h.run r).reply_attributes e r _, ?_⟩
  · exact (Draft.finish_ok (concludes.finish answered)).1
  · let L := exchange ((h.run r).reply_frame e r u.mint.1) ((h.run r).reply_answers r u.mint.1).1
    have refl : ∀ as : List Act, List.Forall₂ (Act.Alike L) as as := fun as =>
      List.forall₂_same.mpr fun a _ => .refl fun _ _ => trivial
    obtain ⟨before, possible, rest⟩ := Along.append.mp run
    -- up to the turn it is one run
    obtain ⟨-, same⟩ := (World.Alike.new new).after (.new new) (.new new) before (refl ps)
    have turned := same.conclude concludes (Ending.finishes _ e r _ (.inr ⟨rfl, rfl⟩))
    obtain ⟨tidy, docket⟩ := World.Docket.kept.run before (Along.of_forall fun _ _ _ => trivial)
      (.new new) (.new new)
    obtain ⟨tidy, docket⟩ := World.Docket.kept.act possible trivial tidy docket
    obtain ⟨run', alike⟩ := turned.after tidy docket rest (refl qs)
    rw [World.after_append, World.after_cons]
    exact ⟨run', alike.exchanged⟩

/-- Of two requests that a server has in hand, one makes its handler panic instead of being
answered with a text. Its caller is told so, and the other call, which is served only later, ends
with its own text all the same. -/
theorem panic_spoils_one_call :
    let ids : MessageId.Source := { issue := fun n => .stamped 1 (BitVec.ofNat 74 n) }
    let w : World := { wall := 0, ids := ids }
    let brief : Address := ⟨"shop", 16, 1, 7⟩
    let slow : Address := ⟨"shop", 16, 1, 8⟩
    let r : Message :=
      ⟨{ id := some (ids.issue 0), kind := .request, source := some ⟨"till", 32, 1, 0⟩,
         sink := some brief, priority := .interactive, ttl := some 10000 }, none⟩
    let ps : List Act := [.command (.addLink ⟨"shop", 16, 1, 0⟩), .command (.addServer 0),
      .command (.enter (.serve 0 brief ⟨0, 0, fun _ => .returned (some (.ofText "a"))⟩)),
      .command (.enter (.serve 0 slow ⟨1, 10, fun _ => .returned (some (.ofText "b"))⟩)),
      .command (.addLink ⟨"till", 32, 1, 0⟩), .command (.addCaller 1 false),
      .command (.invoke 0 brief none .standard), .command (.invoke 0 slow none .standard),
      .turn 3, .turn 5, .turn 7]
    let qs : List Act := [.turn 8, .fire 10, .turn 7, .turn 9]
    let as : List Act := ps ++ .turn 6 :: qs
    let u : World := w.after ps
    let e : Ending := .panicked (some "out of paper")
    let v : World := (u.runEnding 6 e).after qs
    w.IsNew ∧ w.CanRun as ∧ (∃ h, u.Concludes 6 0 h r ∧ (u.runEnding 6 e).CanRun qs ∧
        (w.after as).Exchanged ((h.run r).reply r u.mint.1) (e.reply r u.mint.1) v) ∧
      ((w.after as).calls.get? 0).bind (·.outcome) = some (.ok (.ofText "a")) ∧
      (v.calls.get? 0).bind (·.outcome) =
        some (.error (.remote ⟨.internal, "handler panicked: out of paper"⟩)) ∧
      ((w.after as).calls.get? 1).bind (·.outcome) = some (.ok (.ofText "b")) ∧
      (v.calls.get? 1).bind (·.outcome) = some (.ok (.ofText "b")) := by
  intro ids w brief slow r ps qs as u e v
  have new : w.IsNew := ⟨0, ids, rfl⟩
  have run : w.CanRun as := by decide +kernel
  obtain ⟨h, concludes, -⟩ := World.Concludes.of_endsAtOnce (u := u) (k := 6) (s := 0) (r := r)
    (e := .returned (some (.ofText "a"))) (by decide +kernel)
  obtain ⟨-, -, -, -, -, run', exchanged⟩ := endings_are_isolated new run concludes e
  exact ⟨new, run, ⟨h, concludes, run', exchanged⟩, by decide +kernel, by decide +kernel,
    by decide +kernel, by decide +kernel⟩

end Switchboard
