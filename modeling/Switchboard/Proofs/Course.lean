import Switchboard.Proofs.Answers
import Switchboard.Proofs.Filters

/-! # A call on its way

A request passes from task to task: one asks for the caller's listener, sends the
request, hands it to the server, and the answer comes back the same way. As long
as the call has not ended, there is one task more that carries it on, and nobody
else has the request, or an answer to it, in hand. `Course` is what every world
on the way keeps of this. Main statement: `Course.kept`.
-/

namespace Switchboard

open World

/-- What comes ready-made from outside is no request under the id, and no answer to one. -/
def Act.Spares (id : MessageId) (a : Act) : Prop :=
  ∀ m, a.message? = some m → ¬m.Requests id ∧
    (m.attributes.isResponse = true → m.attributes.requestId ≠ some id)

theorem Act.Spares.respects {id : MessageId} {a : Act} (h : a.Spares id) (w : World) :
    a.Respects (· = id) w := by
  refine fun m hm => ⟨?_, ?_⟩
  · intro response _ requestId he
    subst he
    exact (h m hm).2 response requestId
  · intro request _ identified he
    subst he
    exact absurd ⟨request, identified⟩ (h m hm).1

/-- The job is part of what has still to be done for the call: its listener, its request or the
answer to it is under way, or its handler has not ended. -/
inductive Job.Carries (i : CallerId) (s : ServerId) (id : MessageId) : Job → Prop
  | use (j : Job) (m : Message) (use : j.use? = some (.request i id m)) : Carries i s id j
  | send (l : LinkId) (m : Message) (after : AfterSend)
      (message : m.Requests id ∨ m.answers? = some id) : Carries i s id (.send l m after)
  | request (m : Message) (requests : m.Requests id) :
    Carries i s id (.deliver (.engine (.server s)) m)
  | handle (s' : ServerId) (h : Handler) (m : Message) (identified : m.attributes.id = some id) :
    Carries i s id (.handle s' h m)
  | answer (m : Message) (answers : m.answers? = some id) :
    Carries i s id (.deliver (.engine (.caller i)) m)

theorem Job.Carries.call?_eq_none {i : CallerId} {s : ServerId} {id : MessageId} {j : Job}
    (h : j.Carries i s id) : j.call? = none := by
  cases h with
  | use j m use => cases j <;> simp_all [use?, call?]
  | _ => rfl

def Listener.server? : Listener → Option ServerId
  | .engine (.server s) => some s
  | _ => none

namespace World

def Gone (w : World) (e : EngineId) : Prop := ∃ p ∈ w.seat? e, p.gone = true

instance (w : World) (e : EngineId) : Decidable (w.Gone e) :=
  inferInstanceAs (Decidable (∃ p ∈ w.seat? e, p.gone = true))

/-- The way between a caller and the server of a method is clear: the caller is not closed, the
server is not closed and not gone, serves the method's entity and has its listener on the hub, the
links of both pass on what is sent, and no other server that is there listens to the method. -/
structure Way (w : World) (i : CallerId) (s : ServerId) (method : Address) : Prop where
  caller : ∃ p ∈ w.seat? (.caller i), p.closed = false ∧ w.refusal? p.link .send = none
  server : ∃ p ∈ w.seat? (.server s), p.closed = false ∧ p.gone = false ∧
    method.sameEntity p.entity = true ∧ w.refusal? p.link .send = none ∧
    p.registration (.server s) ∈ w.hub.registrations
  alone : ∀ r ∈ w.hub.registrations, (∃ filter ∈ r.sink, filter.admits method = true) →
    ∀ s' ∈ r.listener.server?, s' = s ∨ w.Gone (.server s')

instance (w : World) (i : CallerId) (s : ServerId) (method : Address) :
    Decidable (w.Way i s method) :=
  decidable_of_iff (_ ∧ _ ∧ _)
    ⟨fun ⟨caller, server, alone⟩ => ⟨caller, server, alone⟩,
      fun ⟨caller, server, alone⟩ => ⟨caller, server, alone⟩⟩

variable {w v : World} {i : CallerId} {s : ServerId} {id : MessageId} {method : Address}

theorem Gone.grow {e : EngineId} (h : w.Gone e) (grows : w.Grows v) : v.Gone e := by
  obtain ⟨p, hp, gone⟩ := h
  obtain ⟨q, hq, hg⟩ := grows.seats e p hp
  exact ⟨q, hq, hg.gone gone⟩

theorem not_gone {u : Server} (server : w.servers.get? s = some u) (alive : u.seat.gone = false) :
    ¬w.Gone (.server s) := by
  intro hx
  obtain ⟨p, hp, gone⟩ := hx
  simp only [seat?, server, Option.map_some, Option.mem_def, Option.some.injEq] at hp
  rw [hp, gone] at alive
  cases alive

/-- A link that passes on what is sent is open. -/
theorem open_of_refusal? {l : LinkId} (h : w.refusal? l .send = none) : ¬w.IsClosed l := by
  intro hx
  obtain ⟨link, hl, closed⟩ := hx
  simp only [refusal?, hl, Link.refusal?] at h
  split at h
  · cases h
  · simp [closed] at h

theorem Way.of_same (h : w.Way i s method) (seats : ∀ e, v.seat? e = w.seat? e)
    (links : v.links = w.links) (hub : v.hub = w.hub) : v.Way i s method := by
  obtain ⟨caller, server, alone⟩ := h
  refine ⟨?_, ?_, ?_⟩
  · simpa only [seats, refusal?, links] using caller
  · simpa only [seats, refusal?, links, hub] using server
  · simpa only [Gone, seats, hub] using alone

/-- The way stays clear while a task of the call makes a move. -/
theorem Way.move {a b : Option TaskId × World} (hm : Move a b) {t : TaskId} {j : Job}
    (ha : a = (some t, w.park t j)) (carries : j.Carries i s id)
    (proper : ∀ j, a.2.HasJob j → a.2.Proper j) (h : a.2.Way i s method) : b.2.Way i s method := by
  -- the running task closes no engine, and only an idle moment lets one go
  have kept : ∀ e p, a.2.seat? e = some p → ∃ q, b.2.seat? e = some q ∧ p.Grows q ∧
      (p.closed = false → q.closed = false) ∧ (p.gone = false → q.gone = false) := by
    intro e p hp
    obtain ⟨q, hq, hg⟩ := hm.seats e p hp
    obtain ⟨p', hp', moved⟩ := hm.seat hq
    cases hp.symm.trans hp'
    refine ⟨q, hq, hg, fun opened => Bool.eq_false_iff.mpr fun closed => ?_,
      fun alive => Bool.eq_false_iff.mpr fun gone => ?_⟩
    · rcases moved.closed closed with closed | ⟨w', t', rfl⟩
      · rw [opened] at closed
        cases closed
      · obtain ⟨-, rfl⟩ := running_inj ha
        cases carries with
        | use _ m use => cases use
    · rcases moved.gone gone with gone | ⟨-, idle, -⟩
      · rw [alive] at gone
        cases gone
      · rw [ha] at idle
        cases idle
  have links : ∀ l, b.2.refusal? l .send = a.2.refusal? l .send := by
    intro l
    rw [refusal?, refusal?, hm.links]
  obtain ⟨⟨p, hp, opened, accepts⟩, ⟨p', hp', opened', alive, entity, accepts', listed⟩, alone⟩ := h
  refine ⟨?_, ?_, fun g hg admits s' hs => ?_⟩
  · obtain ⟨q, hq, hg, ho, -⟩ := kept _ p hp
    exact ⟨q, hq, ho opened, by rw [links, hg.link, accepts]⟩
  · obtain ⟨q, hq, hg, ho, ha'⟩ := kept _ p' hp'
    refine ⟨q, hq, ho opened', ha' alive, by rw [hg.entity, entity],
      by rw [links, hg.link, accepts'], ?_⟩
    rw [Seat.Grows.registration hg]
    rcases hm.hub listed with listed | ⟨t', l, after, -, task⟩
    · exact listed
    · obtain ⟨r, hr, retired⟩ := proper _ ⟨t', _, task, rfl⟩
      cases hr.symm.trans hp'
      rcases retired with closed | gone
      · rw [opened'] at closed
        cases closed
      · rw [alive] at gone
        cases gone
  · rcases hm.enlists hg with hg | ⟨w', t', after, rfl⟩
    · exact (alone g hg admits s' hs).imp_right (Gone.grow · hm.grows)
    -- a task of the call registers no listener but the caller's own
    · obtain ⟨rfl, rfl⟩ := running_inj ha
      cases carries with
      | use _ m use =>
        cases after with
        | report r => cases use
        | use u =>
          cases use
          obtain ⟨q, -, own⟩ := proper _ (hasJob_park w' t' _)
          have own : g.listener = .engine (.caller i) := congrArg Registration.listener own
          rw [own] at hs
          cases hs

end World

/-! ## Who has the request in hand -/

theorem Message.Requests.not_answers {m : Message} {id id' : MessageId} (h : m.Requests id) :
    m.answers? ≠ some id' := by
  simp [Message.answers?, h.not_response]

theorem Message.answers?_of_spares {a : Act} {m : Message} {id : MessageId} (h : a.Spares id)
    (hm : a.message? = some m) : m.answers? ≠ some id := by
  unfold Message.answers?
  split
  · rename_i hr
    exact (h m hm).2 (Bool.and_eq_true_iff.mp hr).1
  · simp

/-- A call on its way: its caller, the server of its method, the request, and what the server may
make of it. -/
structure Errand where
  caller : CallerId
  server : ServerId
  id : MessageId
  method : Address
  request : Message
  Outcome : Except Failure Payload → Prop
  requests : request.Requests id
  valid : request.attributes.isValid = true
  sink : request.attributes.sink = some method

namespace Errand

variable {x : Errand} {w v : World} {j j' : Job}

/-- A listener is wanted for a request, and for the request of the call only by its caller. -/
def Asks (x : Errand) : Use → Prop
  | .request i id m => m.Requests id ∧ (id = x.id → i = x.caller ∧ m = x.request)
  | .serve _ _ _ => True

/-- What a job has to do with the call. The request goes from the caller to its server and to no
other one that is there, a handler that has it comes to one of the outcomes, and the answer goes
from the server to where the request came from. -/
def Faithful (x : Errand) (w : World) : Job → Prop
  | .prepare u => x.Asks u
  | .resume u => x.Asks u
  | .register _ _ _ _ (.use u) => x.Asks u
  | .start (.send _ m) => ¬m.Requests x.id ∧ m.answers? ≠ some x.id
  | .send l m after =>
    (m.Requests x.id → m = x.request ∧ after = .request x.caller x.id) ∧
    (m.answers? = some x.id → after = .answer x.server ∧
      m.attributes.sink = x.request.attributes.source ∧
      m.attributes.source = x.request.attributes.sink ∧
      ∃ p ∈ w.seat? (.server x.server), l = p.link)
  | .deliver l m => m.Requests x.id → m = x.request ∧
      ∀ s, l = .engine (.server s) → s = x.server ∨ w.Gone (.server s)
  | .handle s h m => m.attributes.id = some x.id →
      s = x.server ∧ m = x.request ∧ x.Outcome (h.run m).outcome
  | _ => True

theorem Faithful.asks {u : Use} (h : x.Faithful w j) (use : j.use? = some u) : x.Asks u := by
  cases j with
  | prepare u' => cases use; exact h
  | resume u' => cases use; exact h
  | register l source sink listener after =>
    cases after with
    | use u' => cases use; exact h
    | report r => cases use
  | _ => cases use

theorem Faithful.grow (h : x.Faithful w j) (grows : w.Grows v) : x.Faithful v j := by
  cases j with
  | register l source sink listener after => cases after <;> exact h
  | start o => cases o <;> exact h
  | send l m after =>
    refine ⟨h.1, fun answers => ?_⟩
    obtain ⟨ha, sink, source, p, hp, rfl⟩ := h.2 answers
    obtain ⟨q, hq, hg⟩ := grows.seats _ p hp
    exact ⟨ha, sink, source, q, hq, hg.link.symm⟩
  | deliver l m =>
    exact fun requests => (h requests).imp_right fun hs s hl =>
      (hs s hl).imp_right (Gone.grow · grows)
  | _ => exact h

/-- What a server answers, it answers to the request that it has in hand. -/
theorem Faithful.replies {s : ServerId} {m a : Message} {es : List Event} {draft : Draft}
    {payload : Option Payload} {fresh : MessageId} (h : x.Faithful w j)
    (replies : Replies w s m j es draft payload) (finish : draft.finish fresh payload = .ok a)
    (identified : m.attributes.id = some x.id) :
    s = x.server ∧ m = x.request ∧
      (x.Outcome a.outcome ∨ j = .deliver (.engine (.server s)) m ∧ ∃ v, w.servers.get? s = some v ∧
        a.outcome = v.outcome x.method m) := by
  rcases replies.outcome finish with
    ⟨hd, rfl, ho⟩ | ⟨rfl, v, server, alive, request, unserved, ho⟩
  · obtain ⟨hs, hm, outcome⟩ := h identified
    exact ⟨hs, hm, .inl (ho ▸ outcome)⟩
  · obtain ⟨hm, hs⟩ := h ⟨request, identified⟩
    have sink : m.attributes.sink = some x.method := hm ▸ x.sink
    refine ⟨(hs s rfl).resolve_right (not_gone server alive), hm, .inr ⟨rfl, v, server, ?_⟩⟩
    rw [sink, Option.bind_some] at unserved
    rw [ho, sink, Server.outcome, unserved]
    rfl

end Errand

/-- A task that is faithful to the call goes on so, if the way is clear while it carries the call
on, and if what the server makes of the request is one of the outcomes. -/
theorem Leads.faithful {x : Errand} {w v : World} {t : TaskId} {j j' : Job} (h : Leads w t j j')
    (faith : x.Faithful w j) (grows : w.Grows v)
    (fresh : ∀ i method payload options, j = .start (.call i method (.ok payload) options) →
      (w.invoke i method payload options).2.ids = w.mint.2.ids → w.mint.1 ≠ x.id)
    (way : j.Carries x.caller x.server x.id → w.Way x.caller x.server x.method)
    (handed : j = .deliver (.engine (.server x.server)) x.request →
      ∀ u, w.servers.get? x.server = some u → x.Outcome (u.outcome x.method x.request)) :
    x.Faithful v j' := by
  suffices x.Faithful w j' from this.grow grows
  cases h with
  | served s u h m server alive judged =>
    intro identified
    obtain ⟨request, -⟩ := Server.judge_eq_served judged
    obtain ⟨rfl, hs⟩ := faith ⟨request, identified⟩
    obtain rfl := (hs s rfl).resolve_right (not_gone server alive)
    refine ⟨rfl, rfl, ?_⟩
    rw [← Server.outcome_of_served judged x.sink]
    exact handed rfl u server
  | request _ i c id m use caller listening =>
    obtain ⟨requests, own⟩ := faith.asks use
    refine ⟨fun ours => ?_, fun answers => absurd answers requests.not_answers⟩
    have hid : id = x.id := Option.some.inj (requests.2.symm.trans ours.2)
    obtain ⟨rfl, rfl⟩ := own hid
    exact ⟨rfl, by rw [hid]⟩
  | attempt _ u p use seat => exact faith.asks use
  | wait u => exact faith
  | startSend l m => exact ⟨fun ours => absurd ours faith.1, fun answers => absurd answers faith.2⟩
  | reply s u m a _ es draft payload server replies finish =>
    obtain ⟨response, requestId, source, sink⟩ := replies.finish finish
    refine ⟨fun ours => ?_, fun answers => ?_⟩
    · rw [ours.not_response] at response
      cases response
    · rw [(Message.answers?_eq_some answers).2.2] at requestId
      obtain ⟨rfl, rfl, -⟩ := faith.replies replies finish requestId.symm
      exact ⟨rfl, sink, source, u.seat, by simp [seat?, server], rfl⟩
  | broadcast l m after listener accepted recipient =>
    intro ours
    obtain ⟨rfl, -⟩ := faith.1 ours
    refine ⟨rfl, fun s hs => ?_⟩
    obtain ⟨g, hg, accepts, listens⟩ := Hub.mem_recipients.mp recipient
    refine (way (.send l _ after (.inl ours))).alone g hg ?_ s (by rw [listens, hs]; rfl)
    simp only [Registration.accepts, x.sink, Bool.and_eq_true] at accepts
    cases hf : g.sink with
    | none => simp [hf] at accepts
    | some filter => exact ⟨filter, rfl, by simpa [hf] using accepts.2⟩
  | post o l resource draft payload options topic m posting finish =>
    obtain ⟨response, request⟩ := Operation.finish_posting posting finish
    refine ⟨fun ours => ?_, fun answers => ?_⟩
    · rw [ours.1] at request
      cases request
    · rw [(Message.answers?_eq_some answers).1] at response
      cases response
  | call i c method payload options m caller finish minted =>
    obtain ⟨request, identified, -⟩ := Caller.finish_draft finish
    exact ⟨⟨request, identified⟩, fun he => absurd he (fresh i method payload options rfl minted)⟩
  | _ => trivial

/-- A task that carries the call on has carried it on before, unless it has just been handed a
message. -/
theorem Leads.carries {x : Errand} {w : World} {t : TaskId} {j j' : Job} (h : Leads w t j j')
    (faith : x.Faithful w j)
    (fresh : ∀ i method payload options, j = .start (.call i method (.ok payload) options) →
      (w.invoke i method payload options).2.ids = w.mint.2.ids → w.mint.1 ≠ x.id)
    (undelivered : ∀ l m, j' ≠ .deliver l m) (carries : j'.Carries x.caller x.server x.id) :
    j.Carries x.caller x.server x.id := by
  cases h with
  | served s u h m server alive judged =>
    cases carries with
    | use _ m use => cases use
    | handle _ _ _ identified =>
      obtain ⟨request, -⟩ := Server.judge_eq_served judged
      have requests : m.Requests x.id := ⟨request, identified⟩
      obtain rfl := ((faith requests).2 s rfl).resolve_right (not_gone server alive)
      exact .request m requests
  | request _ i c id m use caller listening =>
    obtain ⟨requests, own⟩ := faith.asks use
    cases carries with
    | use _ m use => cases use
    | send _ _ _ message =>
      have ours := message.resolve_right requests.not_answers
      have hid : id = x.id := Option.some.inj (requests.2.symm.trans ours.2)
      exact .use j m (by rw [use, hid, (own hid).1])
  | attempt _ u p use seat =>
    cases carries with
    | use _ m use' =>
      cases use'
      exact .use j m use
  | wait u =>
    cases carries with
    | use _ m use => exact .use _ m use
  | startSend l m =>
    cases carries with
    | use _ m use => cases use
    | send _ _ _ message =>
      rcases message with ours | answers
      · exact absurd ours faith.1
      · exact absurd answers faith.2
  | reply s u m a _ es draft payload server replies finish =>
    obtain ⟨response, requestId, -⟩ := replies.finish finish
    cases carries with
    | use _ m use => cases use
    | send _ _ _ message =>
      have answers : a.answers? = some x.id := by
        rcases message with ours | answers
        · rw [ours.not_response] at response
          cases response
        · exact answers
      rw [(Message.answers?_eq_some answers).2.2] at requestId
      rcases replies.outcome finish with ⟨hd, rfl, -⟩ | ⟨rfl, v, server', alive, request, -⟩
      · exact .handle s hd m requestId.symm
      · have requests : m.Requests x.id := ⟨request, requestId.symm⟩
        obtain rfl := ((faith requests).2 s rfl).resolve_right (not_gone server' alive)
        exact .request m requests
  | broadcast l m after listener accepted recipient => exact absurd rfl (undelivered listener m)
  | post o l resource draft payload options topic m posting finish =>
    obtain ⟨response, request⟩ := Operation.finish_posting posting finish
    cases carries with
    | use _ m use => cases use
    | send _ _ _ message =>
      rcases message with ours | answers
      · rw [ours.1] at request
        cases request
      · rw [(Message.answers?_eq_some answers).1] at response
        cases response
  | call i c method payload options m caller finish minted =>
    cases carries with
    | use _ _ use =>
      simp only [Job.use?, Option.some.injEq, Use.request.injEq] at use
      exact absurd use.2.1 (fresh i method payload options rfl minted)
  | _ =>
    cases carries with
    | use _ m use => cases use

/-! ## Going on -/

namespace Errand

open History

def Ended (x : Errand) (w : World) : Prop := ∃ cause, ending? x.caller x.id w.events = some cause

/-- Some task carries the call on, and the caller listens since its request was sent. -/
def Carried (x : Errand) (w : World) : Prop :=
  ∃ t j, w.tasks.get? t = some ⟨j, false⟩ ∧ j.Carries x.caller x.server x.id ∧
    (j.use? = none → w.Listens (.caller x.caller))

/-- What a task that carries the call on relies on. -/
structure Ready (x : Errand) (w : World) : Prop where
  way : w.Way x.caller x.server x.method
  alive : ¬w.Gone (.caller x.caller)
  source : ∃ p ∈ w.seat? (.caller x.caller), x.request.attributes.source = some p.entity
  listening : w.Listening
  accepted : x.id ∈ accepted x.caller w.events

variable {x : Errand} {w v : World} {a b : Option TaskId × World} {t : TaskId}

theorem Ended.grow (h : x.Ended w) (grows : w.Grows v) : x.Ended v := by
  obtain ⟨cause, h⟩ := h
  exact ⟨cause, ending?_suffix grows.events h⟩

theorem ended_complete (accepted : x.id ∈ accepted x.caller w.events) (cause : Cause) :
    x.Ended (w.complete x.caller x.id cause) := by
  rw [Ended, complete_events]
  cases he : ending? x.caller x.id w.events with
  | none => exact ⟨cause, by rw [ending?_ended, if_pos ⟨rfl, rfl, by simp [awaited, accepted, he]⟩]⟩
  | some first => exact ⟨first, ending?_suffix (List.suffix_cons ..) he⟩

theorem Ready.receive {m : Message} (ready : x.Ready a.2) (hm : Move a b)
    (ha : a = (some t, w.park t (.deliver (.engine (.caller x.caller)) m)))
    (answers : m.answers? = some x.id) : x.Ended b.2 := by
  have alive := ready.alive
  have accepted := ready.accepted
  obtain ⟨u, rfl, free, delivers⟩ := hm.delivering ha
  cases delivers with
  | passed passes =>
    cases passes with
    | lost e m gone =>
      obtain ⟨p, hp, -⟩ := ready.source
      exact absurd ⟨p, hp, gone p (by simpa using hp)⟩ alive
    | unexpected i c m caller alive unasked =>
      rw [answers] at unasked
      cases unasked
    | seatless u _ eq seat => rcases eq with eq | eq <;> cases eq
  | answered caller alive answers' =>
    cases answers.symm.trans answers'
    obtain ⟨cause, ended⟩ := ended_complete
      (w := u.record (.delivered (.engine (.caller x.caller)) m))
      (accepted_suffix (List.suffix_cons ..) accepted) (.answered m)
    refine ⟨cause, ending?_suffix ?_ ended⟩
    simp only [recordAll_events]
    exact List.suffix_append ..

/-- The answer to the request of the call is sent, and ends the call. -/
theorem answers {s : ServerId} {draft : Draft} {payload : Option Payload} {es : List Event}
    {j : Job} {fresh : MessageId} (dated : fresh.isValid = true)
    (replies : Replies w s x.request j es draft payload) :
    ∃ a, draft.finish fresh payload = .ok a ∧ a.answers? = some x.id := by
  obtain ⟨a, finish⟩ := replies.exists_finish x.requests.1 x.valid
    (by rw [x.requests.2]; rfl) dated
  obtain ⟨response, requestId, -⟩ := replies.finish finish
  obtain ⟨rfl, valid⟩ := Draft.finish_ok finish
  exact ⟨_, finish, by rw [Message.answers?, response, valid, requestId, x.requests.2]; rfl⟩

/-- The server that has the request in hand goes on with it, or its answer is sent. -/
theorem Ready.serve {j : Job} (ready : x.Ready a.2) (hm : Move a b) (ha : a = (some t, w.park t j))
    (hands : j = .deliver (.engine (.server x.server)) x.request ∨
      ∃ h, j = .handle x.server h x.request)
    (inTime : j = .deliver (.engine (.server x.server)) x.request →
      x.request.attributes.isExpired a.2.wall = false)
    (listens : a.2.Listens (.caller x.caller))
    (dated : ∀ id, b.2.ids.HasIssued id → id.isValid = true) : x.Carried b.2 := by
  have listens := hm.listens ready.listening.jobs listens
  obtain ⟨p, hp, -, alive, -⟩ := ready.way.server
  have handles : ∀ h, Job.Carries x.caller x.server x.id (.handle x.server h x.request) :=
    fun h => .handle _ h _ x.requests.2
  cases hm with
  | remove seat unowned alive unheld => cases ha
  | @pass w' t' j' es next free passes =>
    obtain ⟨rfl, rfl⟩ := running_inj ha
    rcases hands with rfl | ⟨h, rfl⟩
    · cases passes with
      | lost e m gone =>
        have gone := gone p hp
        rw [alive] at gone
        cases gone
      | ignored s v m server alive judged =>
        have inTime : x.request.attributes.isExpired w'.wall = false := inTime rfl
        have expired := (Server.judge_eq_ignored_iff v _ x.requests.1 x.valid).mp judged
        rw [inTime] at expired
        cases expired
      | served s v h m server alive judged =>
        exact ⟨t', _, park_self _ t' _, handles h, fun _ => listens⟩
      | seatless u _ eq seat => rcases eq with eq | eq <;> cases eq
    · cases passes with
      | unattended s h m server =>
        have hp : (w'.servers.get? x.server).map (·.seat) = some p := hp
        rw [server] at hp
        cases hp
      | seatless u _ eq seat => rcases eq with eq | eq <;> cases eq
  | @doze w' t' j' ms free dozes =>
    obtain ⟨rfl, rfl⟩ := running_inj ha
    rcases hands with rfl | ⟨h, rfl⟩
    · cases dozes
    · exact ⟨t', _, sleep_self w' t' ms _, handles h, fun _ => listens⟩
  | @reply w' t' s u m a' j' es draft payload free server replies finish =>
    obtain ⟨rfl, rfl⟩ := running_inj ha
    have hm : m = x.request := by
      rcases hands with rfl | ⟨h, rfl⟩ <;> cases replies <;> rfl
    subst hm
    have dated : w'.mint.1.isValid = true := dated _ ⟨w'.ids.issued, by simp, by simp⟩
    obtain ⟨a'', finish', answers⟩ := answers dated replies
    cases finish.symm.trans finish'
    exact ⟨t', _, park_self _ t' _, .send _ _ _ (.inr answers), fun _ => listens⟩
  | @mute w' t' s u m j' es draft payload e free server replies finish =>
    obtain ⟨rfl, rfl⟩ := running_inj ha
    have hm : m = x.request := by
      rcases hands with rfl | ⟨h, rfl⟩ <;> cases replies <;> rfl
    subst hm
    have dated : w'.mint.1.isValid = true := dated _ ⟨w'.ids.issued, by simp, by simp⟩
    obtain ⟨a', finish', -⟩ := answers dated replies
    cases finish.symm.trans finish'
  | _ =>
    obtain ⟨-, rfl⟩ := running_inj ha
    rcases hands with hj | ⟨h, hj⟩ <;> cases hj

/-- A message that the hub accepts from a link is handed to whom it is for. -/
theorem hasJob_broadcast (tidy : w.Tidy) {m : Message} {l : Listener}
    (recipient : l ∈ w.hub.recipients m) :
    ∃ t, (w.broadcast m).tasks.get? t = some ⟨.deliver l m, false⟩ := by
  obtain ⟨n, listed⟩ := List.mem_iff_getElem?.mp recipient
  exact ⟨w.tasks.next + n, by rw [broadcast, broadcast_get? tidy.tasks, listed]; rfl⟩

theorem Ready.hears_request (ready : x.Ready w) :
    .engine (.server x.server) ∈ w.hub.recipients x.request := by
  obtain ⟨p, hp, -, -, entity, -, listed⟩ := ready.way.server
  obtain ⟨q, -, source⟩ := ready.source
  refine Hub.mem_recipients.mpr ⟨_, listed, ?_, rfl⟩
  have fits : p.sink = p.entity.atResource Address.anyResource := ready.listening.seats _ p hp
  simp [Registration.accepts, Seat.registration, source, x.sink, Address.any_admits, fits,
    Address.admits_of_sameEntity entity]

theorem Ready.hears_answer {m : Message} (ready : x.Ready w)
    (listens : w.Listens (.caller x.caller))
    (sink : m.attributes.sink = x.request.attributes.source)
    (source : m.attributes.source = x.request.attributes.sink) :
    .engine (.caller x.caller) ∈ w.hub.recipients m := by
  obtain ⟨p, hp, listens⟩ := listens
  obtain ⟨q, hq, opened, accepts⟩ := ready.way.caller
  obtain ⟨q', hq', replyTo⟩ := ready.source
  cases hp.symm.trans hq
  cases hp.symm.trans hq'
  have listed : p.registration (.caller x.caller) ∈ w.hub.registrations := by
    rcases listens with listed | ⟨q, hq, closed | gone⟩ | closed
    · exact listed
    · cases hp.symm.trans hq
      rw [opened] at closed
      cases closed
    · exact absurd ⟨q, hq, gone⟩ ready.alive
    · exact absurd closed (open_of_refusal? accepts)
  refine Hub.mem_recipients.mpr ⟨_, listed, ?_, rfl⟩
  have fits : p.sink = p.entity := ready.listening.seats _ p hp
  simp [Registration.accepts, Seat.registration, sink, source, replyTo, x.sink, Address.any_admits,
    fits, Address.admits_self]

/-- What the link of a message under way passes to the hub is handed on, and what it refuses ends
the call. -/
theorem Ready.send {l : LinkId} {m : Message} {after : AfterSend} (ready : x.Ready a.2)
    (tidy : a.2.Tidy) (hm : Move a b) (ha : a = (some t, w.park t (.send l m after)))
    (faith : x.Faithful a.2 (.send l m after)) (message : m.Requests x.id ∨ m.answers? = some x.id)
    (listens : a.2.Listens (.caller x.caller)) : x.Ended b.2 ∨ x.Carried b.2 := by
  have listens' := hm.listens ready.listening.jobs listens
  have accepted := ready.accepted
  obtain ⟨u, rfl, free, forwards⟩ := hm.sending ha
  cases forwards with
  | waits => exact .inr ⟨t, _, sleep_self u t _ _, .send _ _ _ message, fun _ => listens'⟩
  | refused refusal other =>
    rcases message with ours | answers
    · exact absurd (faith.1 ours).2 (other _ _)
    · obtain ⟨-, -, -, p, hp, rfl⟩ := faith.2 answers
      obtain ⟨q, hq, -, -, -, accepts, -⟩ := ready.way.server
      cases hp.symm.trans hq
      have accepts : u.refusal? p.link .send = none := accepts
      rw [accepts] at refusal
      cases refusal
  | @ended i id s refusal =>
    rcases message with ours | answers
    · cases (faith.1 ours).2
      exact .inl (ended_complete (w := u) accepted (.refused s))
    · cases (faith.2 answers).1
  | passed accepts =>
    -- the hub hands on what is sent, be it the request or the answer
    have handed : ∀ listener, listener ∈ u.hub.recipients m →
        Job.Carries x.caller x.server x.id (.deliver listener m) →
        x.Carried ((u.broadcast m).recordAll (after.events t (.ok ()))) := by
      intro listener recipient carries
      obtain ⟨t, task⟩ := hasJob_broadcast tidy.unpark recipient
      exact ⟨t, _, by simpa using task, carries, fun _ => listens'⟩
    right
    rcases message with ours | answers
    · obtain ⟨rfl, -⟩ := faith.1 ours
      exact handed _ ready.hears_request (.request _ ours)
    · obtain ⟨-, sink, source, -⟩ := faith.2 answers
      exact handed _ (ready.hears_answer listens sink source) (.answer _ answers)

/-- With the caller's listener registered, the request is sent. -/
theorem carried_onward {m : Message} {p : Seat} (seat : w.seat? (.caller x.caller) = some p)
    (requests : m.Requests x.id) (listens : v.Listens (.caller x.caller))
    (tasks : v.tasks = (w.onward t (.request x.caller x.id m)).2.elim w.tasks
      fun j => w.tasks.set t ⟨j, false⟩) : x.Carried v := by
  obtain ⟨c, hc, -⟩ := Option.map_eq_some_iff.mp seat
  refine ⟨t, .send c.seat.link m (.request x.caller x.id), ?_, .send _ _ _ (.inl requests),
    fun _ => listens⟩
  simp [tasks, World.onward, hc]

/-- A task that wants the caller's listener for the request goes on to it, or sends the request, or
its failure ends the call. -/
theorem Ready.ask {j : Job} {m : Message} (ready : x.Ready a.2) (hm : Move a b)
    (ha : a = (some t, w.park t j)) (use : j.use? = some (.request x.caller x.id m))
    (requests : m.Requests x.id) : x.Ended b.2 ∨ x.Carried b.2 := by
  have accepted := ready.accepted
  obtain ⟨p, hp, -⟩ := ready.way.caller
  have asks : ∀ {v : World} {t : TaskId} {j : Job}, v.tasks.get? t = some ⟨j, false⟩ →
      j.use? = some (.request x.caller x.id m) → x.Carried v := by
    intro v t j task use
    exact ⟨t, j, task, .use j m use, fun none => by rw [use] at none; cases none⟩
  have listening : a.2.cell? (.caller x.caller) = some .registered →
      b.2.Listens (.caller x.caller) :=
    fun registered => hm.listens ready.listening.jobs (ready.listening.listens _ registered)
  cases hm with
  | remove seat unowned alive unheld => cases ha
  | @pass w' t' j' es next free passes =>
    obtain ⟨rfl, rfl⟩ := running_inj ha
    have seat : w'.seat? (.caller x.caller) = some p := hp
    cases passes with
    | useAtOnce u registered =>
      cases use
      exact .inr (carried_onward (t := t') seat requests (listening registered) (by simp))
    | use u registered =>
      cases use
      exact .inr (carried_onward (t := t') seat requests (listening registered) (by simp))
    | attempt u p seat unregistered =>
      exact .inr (asks (park_self _ t' _) use)
    | seatless u _ eq seat' =>
      have hu : u = .request x.caller x.id m := by rcases eq with rfl | rfl <;> cases use <;> rfl
      subst hu
      cases seat.symm.trans seat'
    | _ => cases use
  | @doze w' t' j' ms free dozes =>
    obtain ⟨rfl, rfl⟩ := running_inj ha
    exact .inr (asks (sleep_self w' t' ms _) use)
  | @claim w' t' u p free seat vacant =>
    obtain ⟨rfl, rfl⟩ := running_inj ha
    exact .inr (asks (park_self _ t' _) use)
  | @wait w' t' u p waiting free seat attempting =>
    obtain ⟨rfl, rfl⟩ := running_inj ha
    exact .inr (asks (park_self _ t' _) use)
  | @enrol w' t' r u hub free registration =>
    obtain ⟨rfl, rfl⟩ := running_inj ha
    cases use
    have seat : w'.seat? (.caller x.caller) = some p := hp
    refine .inr (carried_onward (t := t') seat requests ?_ (by simp))
    exact listens_of_registration (ready.listening.jobs _ (hasJob_park w' t' _)) registration
      (Move.enrol free registration).grows (by simp)
  | @failRequest w' t' r i id m s free refusal =>
    obtain ⟨rfl, rfl⟩ := running_inj ha
    cases use
    refine .inl (ended_complete (w := (w'.record (.attempted (.caller x.caller)
      (.error s))).settleCell (.caller x.caller) (.error s)) ?_ (.refused s))
    simpa using accepted_suffix (List.suffix_cons ..) accepted
  | reply free server replies finish =>
    obtain ⟨-, rfl⟩ := running_inj ha
    cases replies <;> cases use
  | mute free server replies finish =>
    obtain ⟨-, rfl⟩ := running_inj ha
    cases replies <;> cases use
  | _ =>
    obtain ⟨-, rfl⟩ := running_inj ha
    cases use

/-- A task that carries the call on has been relieved after its move, unless the call has ended. -/
theorem Ready.carried {j : Job} (ready : x.Ready a.2) (tidy : a.2.Tidy) (hm : Move a b)
    (ha : a = (some t, w.park t j)) (carries : j.Carries x.caller x.server x.id)
    (faith : x.Faithful a.2 j) (listens : j.use? = none → a.2.Listens (.caller x.caller))
    (inTime : j = .deliver (.engine (.server x.server)) x.request →
      x.request.attributes.isExpired a.2.wall = false)
    (dated : ∀ id, b.2.ids.HasIssued id → id.isValid = true) : x.Ended b.2 ∨ x.Carried b.2 := by
  cases carries with
  | use j m use => exact ready.ask hm ha use (faith.asks use).1
  | send l m after message => exact ready.send tidy hm ha faith message (listens rfl)
  | request m requests =>
    obtain ⟨rfl, -⟩ := faith requests
    exact .inr (ready.serve hm ha (.inl rfl) inTime (listens rfl) dated)
  | handle s h m identified =>
    obtain ⟨rfl, rfl, -⟩ := faith identified
    exact .inr (ready.serve hm ha (.inr ⟨h, rfl⟩) inTime (listens rfl) dated)
  | answer m answers => exact .inl (ready.receive hm ha answers)

end Errand

/-! ## The course of a call -/

/-- In the act the server's listener is handed the message. -/
def World.Dispatches (w : World) (a : Act) (s : ServerId) (m : Message) : Prop :=
  ∃ t, a = .turn t ∧ w.tasks.get? t = some ⟨.deliver (.engine (.server s)) m, false⟩

/-- The ids that have been issued are distinct and valid. -/
structure MessageId.Source.Sound (s : MessageId.Source) : Prop where
  distinct : s.Distinct
  valid : ∀ id, s.HasIssued id → id.isValid = true

theorem World.Grows.sound {w v : World} (h : w.Grows v) (sound : v.ids.Sound) : w.ids.Sound := by
  refine ⟨h.distinct sound.distinct, fun id ⟨n, hn, he⟩ => sound.valid id ⟨n, ?_, ?_⟩⟩
  · exact Nat.lt_of_lt_of_le hn h.issued
  · rw [h.issue, he]

namespace Errand

open History

variable {x : Errand} {w : World} {a b : Option TaskId × World}

/-- What is known of each moment of the call's way, and of the act that comes next. -/
structure Allows (x : Errand) (w : World) (a : Act) : Prop where
  way : w.Way x.caller x.server x.method
  spares : a.Spares x.id
  inTime : w.Dispatches a x.server x.request → x.request.attributes.isExpired w.wall = false
  outcome : w.Dispatches a x.server x.request →
    ∀ u, w.servers.get? x.server = some u → x.Outcome (u.outcome x.method x.request)

/-- **The course of a call.** Every task is faithful to it, every answer to its request is one of
the outcomes, and as long as nothing has ended it, some task carries it on. A task of the call that
is running finds the way clear. -/
structure Course (x : Errand) (a : Option TaskId × World) : Prop where
  ledger : a.2.Ledger none
  listening : a.2.Listening
  accepted : x.id ∈ accepted x.caller a.2.events
  source : ∃ p ∈ a.2.seat? (.caller x.caller), x.request.attributes.source = some p.entity
  jobs : ∀ j, a.2.HasJob j → x.Faithful a.2 j
  answers : ∀ s r m, a.2.Has (.answered s r m) → r.attributes.id = some x.id → x.Outcome m.outcome
  pending : x.Ended a.2 ∨ ¬a.2.Gone (.caller x.caller) ∧ x.Carried a.2
  running : ∀ t j, a.1 = some t → a.2.tasks.get? t = some ⟨j, false⟩ →
    j.Carries x.caller x.server x.id → a.2.Way x.caller x.server x.method ∧
      (j = .deliver (.engine (.server x.server)) x.request →
        x.request.attributes.isExpired a.2.wall = false ∧
        ∀ u, a.2.servers.get? x.server = some u → x.Outcome (u.outcome x.method x.request))

theorem Course.alive (h : x.Course a) (hm : Move a b) (pending : ¬x.Ended a.2)
    (alive : ¬a.2.Gone (.caller x.caller)) : ¬b.2.Gone (.caller x.caller) := by
  intro hx
  obtain ⟨q, hq, gone⟩ := hx
  obtain ⟨p, hp, moved⟩ := hm.seat hq
  rcases moved.gone gone with gone | ⟨-, -, unheld⟩
  · exact alive ⟨p, hp, gone⟩
  · have awaited : x.id ∈ awaited x.caller a.2.events := by
      refine List.mem_filter.mpr ⟨h.accepted, ?_⟩
      cases he : ending? x.caller x.id a.2.events with
      | none => rfl
      | some cause => exact absurd ⟨cause, he⟩ pending
    rw [← h.ledger.registry, List.mem_map] at awaited
    obtain ⟨p, hp, -⟩ := awaited
    rw [h.ledger.isHeld hp] at unheld
    cases unheld

theorem Course.stays {t : TaskId} {j : Job} (h : x.Course a) (hm : Move a b) (tidy : a.2.Tidy)
    (task : a.2.tasks.get? t = some ⟨j, false⟩) (carries : j.Carries x.caller x.server x.id)
    (other : a.1 ≠ some t) : b.2.tasks.get? t = some ⟨j, false⟩ := by
  rcases hm.stays tidy task other with task | ⟨-, i, id, p, hp, rfl⟩
  · exact task
  -- only the deadline of a pending call is cancelled, and that is no task of the call's way
  · obtain ⟨hp, -⟩ := Ledger.mem_pendingOf hp
    obtain ⟨j', task', call⟩ := h.ledger.watched i p hp (by simp)
    cases task.symm.trans task'
    have idle : j.use? = none := by cases j <;> first | rfl | cases call
    cases carries with
    | use _ m use =>
      rw [idle] at use
      cases use
    | _ => cases call

/-- The id of another call is another one. -/
theorem Course.fresh (h : x.Course a) {i : CallerId} {method : Address} {payload : Option Payload}
    {options : CallOptions} (ids : a.2.ids = w.ids)
    (minted : (w.invoke i method payload options).2.ids = w.mint.2.ids)
    (distinct : (w.invoke i method payload options).2.ids.Distinct) : w.mint.1 ≠ x.id := by
  intro he
  rw [minted] at distinct
  have unknown := h.ledger.not_accepted (by simpa [mint, ids] using distinct)
    x.caller
  rw [show a.2.mint.1 = w.mint.1 by rw [mint, mint, ids], he] at unknown
  exact unknown h.accepted

theorem Course.faithful {t : TaskId} {j : Job} (h : x.Course a) (ha : a = (some t, w.park t j)) :
    x.Faithful w j := by
  subst ha
  exact (h.jobs j (hasJob_park w t j)).grow (.unpark w t j)

theorem Course.way {t : TaskId} {j : Job} (h : x.Course a) (ha : a = (some t, w.park t j))
    (carries : j.Carries x.caller x.server x.id) : w.Way x.caller x.server x.method := by
  subst ha
  have way := (h.running t j rfl (park_self w t j) carries).1
  exact way.of_same (fun e => (park_seat? w t j e).symm) rfl rfl

theorem Course.outcome {t : TaskId} {j : Job} (h : x.Course a) (ha : a = (some t, w.park t j))
    (hands : j = .deliver (.engine (.server x.server)) x.request) {u : Server}
    (server : w.servers.get? x.server = some u) :
    x.Outcome (u.outcome x.method x.request) := by
  subst ha hands
  have running := h.running t _ rfl (park_self w t _) (.request _ x.requests)
  exact (running.2 rfl).2 u server

theorem Course.move (h : x.Course a) (hm : Move a b) (tidy : a.2.Tidy) (sound : b.2.ids.Sound) :
    x.Course b := by
  have grows := hm.grows
  have fresh : ∀ {w : World} {t : TaskId} {j : Job}, a = (some t, w.park t j) →
      ∀ i method payload options, j = .start (.call i method (.ok payload) options) →
      (w.invoke i method payload options).2.ids = w.mint.2.ids → w.mint.1 ≠ x.id := by
    intro w t j ha i method payload options heq minted
    subst heq
    refine h.fresh (by rw [ha]; rfl) minted ?_
    rw [← hm.ids_of_call ha]
    exact sound.distinct
  refine ⟨h.ledger.move hm tidy sound.distinct, h.listening.move hm tidy,
    accepted_suffix grows.events h.accepted, ?_, fun j hj => ?_,
    fun s r m answered identified => ?_,
    ?_, fun t j goes task carries => ?_⟩
  · obtain ⟨p, hp, source⟩ := h.source
    obtain ⟨q, hq, hg⟩ := grows.seats _ p hp
    exact ⟨q, hq, by rw [source, hg.entity]⟩
  · rcases hm.leads tidy hj with hj | ⟨w, t, j₀, ha, leads⟩ | ⟨e, p, seat, -, -, rfl, rfl⟩
    · exact (h.jobs j hj).grow grows
    · have parked : w.Grows a.2 := ha ▸ .park w t j₀
      exact leads.faithful (h.faithful ha) (parked.trans grows) (fresh ha) (h.way ha)
        fun hands _ => h.outcome ha hands
    · trivial
  · rcases hm.answers answered with answered | ⟨w, t, j, es, draft, payload, ha, replies, finish⟩
    · exact h.answers s r m answered identified
    · obtain ⟨rfl, rfl, outcome | ⟨hands, u, server, ho⟩⟩ :=
        (h.faithful ha).replies replies finish identified
      · exact outcome
      · rw [ho]
        exact h.outcome ha hands server
  · by_cases ended : x.Ended a.2
    · exact .inl (ended.grow grows)
    · obtain ⟨alive, t, j, task, carries, listens⟩ := h.pending.resolve_left ended
      have alive' := h.alive hm ended alive
      by_cases running : a.1 = some t
      · obtain ⟨w, ha⟩ := hm.parked running task
        obtain ⟨way, hands⟩ := h.running t j running task carries
        have ready : x.Ready a.2 := ⟨way, alive, h.source, h.listening, h.accepted⟩
        exact (ready.carried tidy hm ha carries (h.jobs j ⟨t, _, task, rfl⟩) listens
          (fun hj => (hands hj).1) sound.valid).imp_right fun carried => ⟨alive', carried⟩
      · exact .inr ⟨alive', t, j, h.stays hm tidy task carries running, carries,
          fun use => hm.listens h.listening.jobs (listens use)⟩
  · obtain ⟨w, j₀, ha, leads, undelivered⟩ := hm.goes goes task
    have before := leads.carries (h.faithful ha) (fresh ha) undelivered carries
    have way := (h.running t j₀ (by rw [ha]) (by rw [ha]; exact park_self w t j₀) before).1
    exact ⟨way.move hm ha before h.listening.jobs, fun hj => absurd hj (undelivered _ _)⟩

theorem Course.outset {act : Act} (h : x.Course (none, w)) (ho : Outset w act b) (tidy : w.Tidy)
    (allows : x.Allows w act) (sound : b.2.ids.Sound) : x.Course b := by
  have grows := ho.grows tidy
  have spared : ∀ m, act.message? = some m → ¬m.Requests x.id ∧ m.answers? ≠ some x.id :=
    fun m hm => ⟨(allows.spares m hm).1, Message.answers?_of_spares allows.spares hm⟩
  refine ⟨h.ledger.outset ho tidy sound.distinct, h.listening.outset ho tidy,
    accepted_suffix grows.events h.accepted, ?_, fun j hj => ?_,
    fun s r m answered identified => h.answers s r m (ho.answers answered) identified, ?_,
    fun t j runs task carries => ?_⟩
  · obtain ⟨p, hp, source⟩ := h.source
    obtain ⟨q, hq, hg⟩ := grows.seats _ p hp
    exact ⟨q, hq, by rw [source, hg.entity]⟩
  · rcases ho.leads hj with hj | ⟨o, ha, rfl⟩ | ⟨l, m, ha, rfl⟩ |
      ⟨i, method, payload, options, ha, new⟩
    · exact (h.jobs j hj).grow grows
    · cases o with
      | send l m => rcases ha with rfl | rfl <;> exact spared m rfl
      | _ => trivial
    · exact fun ours => absurd ours (spared m (by rw [ha]; rfl)).1
    · rcases new with rfl | ⟨c, m, caller, finish, minted, rfl⟩
      · trivial
      · obtain ⟨request, identified, -⟩ := Caller.finish_draft finish
        have distinct : (w.invoke i method payload options).2.ids.Distinct := by
          rw [← ho.ids_of_invoke ha]
          exact sound.distinct
        exact ⟨⟨request, identified⟩, fun he => absurd he (h.fresh rfl minted distinct)⟩
  · rcases h.pending with ended | ⟨alive, t, j, task, carries, listens⟩
    · exact .inl (ended.grow grows)
    · refine .inr ⟨?_, t, j, ?_, carries, fun use => ?_⟩
      · intro hx
        obtain ⟨q, hq, gone⟩ := hx
        rcases seat_of_outset ho hq with ⟨p, handles, hp, rfl, -⟩ | ⟨-, -, here, -⟩
        · exact alive ⟨p, hp, gone⟩
        · rw [here] at gone
          cases gone
      · rcases ho.stays tidy task with task | ⟨cancelled, -⟩
        · exact task
        · cases cancelled
      · exact (listens use).outset ho tidy (h.listening.linked _)
  · rcases ho.runs runs task with ⟨rfl, task', hb⟩ | ⟨o, ho⟩
    · have way : b.2.Way x.caller x.server x.method :=
        allows.way.of_same (fun e => by rw [hb, park_seat?]; rfl) (by rw [hb]; rfl)
          (by rw [hb]; rfl)
      refine ⟨way, ?_⟩
      intro heq
      subst heq
      have dispatches : w.Dispatches (.turn t) x.server x.request := ⟨t, rfl, task'⟩
      refine ⟨?_, fun u server => allows.outcome dispatches u ?_⟩
      · rw [hb]
        exact allows.inTime dispatches
      · rwa [hb] at server
    · have ho : j = .start o := ho
      subst ho
      cases carries with
      | use _ m use => cases use

theorem course_kept (x : Errand) :
    Kept x.Allows fun a => a.2.ids.Sound → x.Course a where
  outset tidy ho allows before sound :=
    (before ((ho.grows tidy).sound sound)).outset ho tidy allows sound
  move tidy hm before sound := (before (hm.grows.sound sound)).move hm tidy sound

end Errand

end Switchboard
