import Switchboard.Proofs.Jobs
import Switchboard.Proofs.Ledger

/-! # Where messages come from

Nothing but the hub joins callers and servers, and everyone on it can send what
he likes. Still, as long as nobody else answers under the ids in question, an
answer to a call can be traced back: to the server that gave it, to the request
that this server was given, and to the caller that sent this request. `Traffic`
is what every message under way and every event keep of this. Main statement:
`World.traffic_after`.
-/

namespace Switchboard

open History

theorem Attributes.isResponse_of_isRequest {a : Attributes} (h : a.isRequest = true) :
    a.isResponse = false := by
  simp only [isRequest, beq_iff_eq] at h
  simp [isResponse, h]

def Message.Requests (m : Message) (id : MessageId) : Prop :=
  m.attributes.isRequest = true ∧ m.attributes.id = some id

theorem Message.Requests.not_response {m : Message} {id : MessageId} (h : m.Requests id) :
    m.attributes.isResponse = false :=
  Attributes.isResponse_of_isRequest h.1

/-- The message is what some handler made of the request, or says that there is no handler. -/
def Message.IsAnswerTo (a r : Message) : Prop :=
  ∃ fresh draft payload, draft.finish fresh payload = .ok a ∧
    ((∃ h : Handler, (draft, payload) = (h.run r).answer r.attributes) ∨
      (draft, payload) =
        (Server.unservedAnswer r.attributes (r.attributes.sink.getD Address.any), none))

/-- What comes ready-made from outside is no answer under the ids, and no request under one of them
either, unless it repeats one that was sent. -/
def Act.Respects (F : MessageId → Prop) (w : World) (a : Act) : Prop :=
  ∀ m, a.message? = some m →
    (m.attributes.isResponse = true → ∀ x, m.attributes.requestId = some x → ¬F x) ∧
    (m.attributes.isRequest = true → ∀ x, m.attributes.id = some x → F x →
      ∃ l, w.Has (.sent l m))

namespace World

variable {w v : World} {t : TaskId} {j j' : Job}

/-- As far as the ids `F` are concerned, the message is what it seems to be: an answer was given by
a server, and a request was sent by the caller that accepted its call. -/
structure Genuine (F : MessageId → Prop) (w : World) (m : Message) : Prop where
  response : m.attributes.isResponse = true → ∀ x, m.attributes.requestId = some x → F x →
    ∃ s r, w.Has (.answered s r m)
  request : m.attributes.isRequest = true → ∀ x, m.attributes.id = some x → F x →
    ∃ i p, w.seat? (.caller i) = some p ∧ x ∈ accepted i w.events ∧ w.Has (.sent p.link m)

/-- A task that wants a listener for a request has the request of an accepted call. -/
def Asks (w : World) (i : CallerId) (id : MessageId) (m : Message) : Prop :=
  m.attributes.isRequest = true ∧ m.attributes.id = some id ∧ id ∈ accepted i w.events

/-- What a job keeps of the origin of its message. -/
structure Honest (F : MessageId → Prop) (w : World) (j : Job) : Prop where
  message : ∀ m, j.message? = some m → w.Genuine F m
  asks : ∀ i id m, j.use? = some (.request i id m) → w.Asks i id m
  handles : ∀ s h m, j = .handle s h m →
    m.attributes.isRequest = true ∧ w.Has (.delivered (.engine (.server s)) m)

/-- What an event keeps of the origin of its message. -/
def Attested (F : MessageId → Prop) (w : World) : Event → Prop
  | .sent _ m => w.Genuine F m
  | .delivered _ m => w.Genuine F m
  | .answered s r a => r.attributes.isRequest = true ∧ a.attributes.isResponse = true ∧
      a.attributes.requestId = r.attributes.id ∧ a.IsAnswerTo r ∧ w.Genuine F r ∧
      w.Has (.delivered (.engine (.server s)) r)
  | _ => True

/-- The request has been sent, or some task is about to send it. -/
def Knows (w : World) (m : Message) : Prop :=
  m.attributes.isRequest = true ∧
    ((∃ l, w.Has (.sent l m)) ∨ ∃ j i id, w.HasJob j ∧ j.use? = some (.request i id m))

/-- Every message under way can be traced back, and there is one request under each of the ids. -/
structure Traffic (F : MessageId → Prop) (w : World) : Prop where
  jobs : ∀ j, w.HasJob j → w.Honest F j
  events : ∀ e, w.Has e → w.Attested F e
  sole : ∀ m m', w.Knows m → w.Knows m' → ∀ x, F x → m.attributes.id = some x →
    m'.attributes.id = some x → m = m'

variable {F : MessageId → Prop} {m : Message} {e : Event}

theorem Genuine.grow (h : w.Genuine F m) (grows : w.Grows v) : v.Genuine F m := by
  refine ⟨fun hm x hx hF => ?_, fun hm x hx hF => ?_⟩
  · obtain ⟨s, r, hr⟩ := h.response hm x hx hF
    exact ⟨s, r, hr.of_suffix grows.events⟩
  · obtain ⟨i, p, hp, ha, hs⟩ := h.request hm x hx hF
    obtain ⟨q, hq, hg⟩ := grows.seats _ p hp
    exact ⟨i, q, hq, accepted_suffix grows.events ha, hg.link ▸ hs.of_suffix grows.events⟩

theorem Asks.grow {i : CallerId} {id : MessageId} (h : w.Asks i id m) (grows : w.Grows v) :
    v.Asks i id m := ⟨h.1, h.2.1, accepted_suffix grows.events h.2.2⟩

theorem Honest.grow (h : w.Honest F j) (grows : w.Grows v) : v.Honest F j :=
  ⟨fun m hm => (h.message m hm).grow grows, fun i id m hu => (h.asks i id m hu).grow grows,
    fun s hd m hj => ⟨(h.handles s hd m hj).1, (h.handles s hd m hj).2.of_suffix grows.events⟩⟩

theorem Attested.grow (h : w.Attested F e) (grows : w.Grows v) : v.Attested F e := by
  cases e with
  | sent l m => exact Genuine.grow h grows
  | delivered l m => exact Genuine.grow h grows
  | answered s r a =>
    obtain ⟨hr, ha, hid, hp, hg, hd⟩ := h
    exact ⟨hr, ha, hid, hp, hg.grow grows, hd.of_suffix grows.events⟩
  | _ => trivial

theorem Honest.silent (message : j.message? = none)
    (use : ∀ i id m, j.use? ≠ some (.request i id m)) : w.Honest F j := by
  refine ⟨fun m hm => ?_, fun i id m hu => absurd hu (use i id m), fun s h m hj => ?_⟩
  · rw [message] at hm
    cases hm
  · rw [hj] at message
    cases message

/-- A job is honest if it only passes on a message that is what it seems to be. -/
theorem Honest.of_genuine (message : j.message? = some m) (genuine : w.Genuine F m)
    (use : j.use? = none) (unhandled : ∀ s h m, j ≠ .handle s h m) : w.Honest F j := by
  refine ⟨fun m' hm => ?_, fun i id m' hu => ?_, fun s h m' hj => absurd hj (unhandled s h m')⟩
  · rw [message] at hm
    cases hm
    exact genuine
  · rw [use] at hu
    cases hu

namespace Traffic

theorem new (h : w.IsNew) : w.Traffic F := by
  obtain ⟨wall, ids, rfl⟩ := h
  refine ⟨?_, ?_, ?_⟩ <;> simp [HasJob, Has, Knows, Table.get?]

/-- What no new request comes with keeps the traffic, if it is honest about new jobs and events. -/
theorem step (h : w.Traffic F) (grows : w.Grows v)
    (jobs : ∀ j, v.HasJob j → v.Honest F j ∨ w.HasJob j)
    (events : ∀ e, v.Has e → v.Attested F e ∨ w.Has e)
    (knows : ∀ m x, v.Knows m → F x → m.attributes.id = some x → w.Knows m) : v.Traffic F := by
  refine ⟨fun j hj => ?_, fun e he => ?_, fun m m' hm hm' x hF hx hx' => ?_⟩
  · rcases jobs j hj with hn | ho
    · exact hn
    · exact (h.jobs j ho).grow grows
  · rcases events e he with hn | ho
    · exact hn
    · exact (h.events e ho).grow grows
  · exact h.sole m m' (knows m x hm hF hx) (knows m' x hm' hF hx') x hF hx hx'

/-- What the running task goes on with, and what it records, keeps the traffic if it is honest and
asks for nothing new. -/
theorem next (h : (w.park t j).Traffic F) (free : w.tasks.get? t = none)
    (grows : (w.park t j).Grows v) (js : List Job) (es : List Event)
    (jobs : ∀ j', v.HasJob j' → j' ∈ js ∨ w.HasJob j')
    (events : ∀ e, v.Has e → e ∈ es ∨ w.Has e) (honest : ∀ j' ∈ js, v.Honest F j')
    (attested : ∀ e ∈ es, v.Attested F e)
    (asks : ∀ j' ∈ js, ∀ i id m, j'.use? = some (.request i id m) →
      j.use? = some (.request i id m))
    (sent : ∀ l m x, .sent l m ∈ es → m.attributes.isRequest = true → F x →
      m.attributes.id = some x → (w.park t j).Knows m) : v.Traffic F := by
  have old : ∀ j', w.HasJob j' → (w.park t j).HasJob j' := fun j' hj =>
    hj.of_sub ((Table.Sub.refl _).set free _)
  refine h.step grows (fun j' hj => ?_) (fun e he => ?_) fun m x hm hF hx => ?_
  · exact (jobs j' hj).imp (honest j') (old j')
  · exact (events e he).imp (attested e) fun hw => hw
  · obtain ⟨hr, ⟨l, hl⟩ | ⟨j', i, id, hj, hu⟩⟩ := hm
    · rcases events _ hl with hes | hw
      · exact sent l m x hes hr hF hx
      · exact ⟨hr, .inl ⟨l, hw⟩⟩
    · rcases jobs j' hj with hjs | hw
      · exact ⟨hr, .inr ⟨j, i, id, hasJob_park w t j, asks j' hjs i id m hu⟩⟩
      · exact ⟨hr, .inr ⟨j', i, id, old j' hw, hu⟩⟩

/-- A move that starts no job and records nothing of note. -/
theorem quiet (h : (w.park t j).Traffic F) (free : w.tasks.get? t = none)
    (grows : (w.park t j).Grows v) (jobs : ∀ j', v.HasJob j' → w.HasJob j') (es : List Event)
    (events : ∀ e, v.Has e → e ∈ es ∨ w.Has e)
    (dull : ∀ e ∈ es, (∀ v : World, v.Attested F e) ∧ ∀ l m, e ≠ .sent l m) : v.Traffic F :=
  h.next free grows [] es (fun j' hj' => .inr (jobs j' hj')) events (by simp)
    (fun e he => (dull e he).1 v) (by simp) fun l m _ he _ _ _ => absurd rfl ((dull _ he).2 l m)

/-- The running task goes on with a job without a message that asks for nothing new. -/
theorem goes {next : Job} (h : (w.park t j).Traffic F) (free : w.tasks.get? t = none)
    (grows : (w.park t j).Grows v) (tasks : v.tasks = w.tasks.set t ⟨next, false⟩)
    (events : v.events = w.events) (message : next.message? = none)
    (asks : ∀ i id m, next.use? = some (.request i id m) → j.use? = some (.request i id m)) :
    v.Traffic F := by
  refine h.next free grows [next] [] (fun j' hj' => by simpa using hj'.of_set tasks)
    (fun e he => .inr ((has_congr events).mp he)) (fun j' hj' => ?_) (by simp)
    (fun j' hj' i id m use => ?_) (by simp)
  · rw [List.mem_singleton.mp hj']
    refine ⟨fun m hm => ?_, fun i id m use => ?_, fun s hd m hn => ?_⟩
    · rw [message] at hm
      cases hm
    · exact ((h.jobs j (hasJob_park w t j)).asks i id m (asks i id m use)).grow grows
    · rw [hn] at message
      cases message
  · rw [List.mem_singleton.mp hj'] at use
    exact asks i id m use

/-- A task passes a message to a link; if it is a request under one of the ids, it was known. -/
theorem sends (h : (w.park t j).Traffic F) (free : w.tasks.get? t = none)
    (grows : (w.park t j).Grows v) (l : LinkId) (after : AfterSend) (es : List Event)
    (jobs : ∀ j', v.HasJob j' → j' = .send l m after ∨ w.HasJob j')
    (events : ∀ e, v.Has e → e = .sent l m ∨ e ∈ es ∨ w.Has e) (genuine : v.Genuine F m)
    (attested : ∀ e ∈ es, v.Attested F e ∧ ∀ l m, e ≠ .sent l m)
    (known : m.attributes.isRequest = true → ∀ x, F x → m.attributes.id = some x →
      (w.park t j).Knows m) : v.Traffic F := by
  refine h.next free grows [.send l m after] (.sent l m :: es)
    (fun j' hj' => by simpa using jobs j' hj') (fun e he => by simpa [or_assoc] using events e he)
    (fun j' hj' => ?_) (fun e he => ?_) (by simp [Job.use?]) fun l' m' x he hr hF hx => ?_
  · rw [List.mem_singleton.mp hj']
    exact .of_genuine rfl genuine rfl (by simp)
  · rcases List.mem_cons.mp he with rfl | he
    · exact genuine
    · exact (attested e he).1
  · rcases List.mem_cons.mp he with he | he
    · cases he
      exact known hr x hF hx
    · exact absurd rfl ((attested _ he).2 l' m')

end Traffic

/-- A request that its caller sends is genuine. -/
theorem Genuine.sent {i : CallerId} {id : MessageId} {p : Seat} (asks : w.Asks i id m)
    (hp : w.seat? (.caller i) = some p) (hs : w.Has (.sent p.link m)) : w.Genuine F m := by
  refine ⟨fun hm => ?_, fun _ x hx _ => ?_⟩
  · rw [Attributes.isResponse_of_isRequest asks.1] at hm
    cases hm
  · rw [asks.2.1] at hx
    cases hx
    exact ⟨i, p, hp, asks.2.2, hs⟩

end World

theorem Draft.finish_ok {d : Draft} {fresh : MessageId} {payload : Option Payload} {m : Message}
    (h : d.finish fresh payload = .ok m) : m = ⟨d.identified fresh, payload⟩ ∧
      (d.identified fresh).isValid = true := by
  obtain ⟨valid, same⟩ := finish_eq_ok.mp h
  exact ⟨same, Attributes.isValid_iff.mpr valid⟩

theorem Message.answers?_eq_some {m : Message} {id : MessageId} (h : m.answers? = some id) :
    m.attributes.isResponse = true ∧ m.attributes.validate = .ok () ∧
      m.attributes.requestId = some id := by
  unfold Message.answers? at h
  split at h
  · rename_i hm
    simp only [Bool.and_eq_true] at hm
    exact ⟨hm.1, Attributes.isValid_iff.mp hm.2, h⟩
  · cases h

/-- The request of a call carries the call's id. -/
theorem Caller.finish_draft {c : Caller} {method : Address} {options : CallOptions}
    {id : MessageId} {payload : Option Payload} {m : Message}
    (h : (c.draft method options id).finish id payload = .ok m) :
    m.attributes.isRequest = true ∧ m.attributes.id = some id ∧ m.attributes.requestId = none ∧
      m.attributes.source = some c.seat.entity ∧ m.attributes.sink = some method ∧
      m.payload = payload ∧ m.attributes.isValid = true := by
  obtain ⟨rfl, hv⟩ := Draft.finish_ok h
  refine ⟨?_, ?_, ?_, ?_, ?_, rfl, hv⟩ <;>
    cases ht : options.token <;>
      simp [Caller.draft, ht, Draft.set?, Draft.set, Draft.request, Draft.identified,
        Attributes.isRequest]

/-- An answer is a response to the request that it answers, from where this was sent to and back
to where it came from. -/
theorem Replies.finish {w : World} {s : ServerId} {m a : Message} {j : Job} {es : List Event}
    {draft : Draft} {payload : Option Payload} {fresh : MessageId}
    (h : Replies w s m j es draft payload) (hf : draft.finish fresh payload = .ok a) :
    a.attributes.isResponse = true ∧ a.attributes.requestId = m.attributes.id ∧
      a.attributes.source = m.attributes.sink ∧ a.attributes.sink = m.attributes.source := by
  obtain ⟨rfl, -⟩ := Draft.finish_ok hf
  cases h with
  | ended h =>
    cases h.run m <;>
      simp [Ending.answer, Draft.answer, Draft.set, Draft.identified, Attributes.isResponse]
  | unserved v draft server alive judged =>
    obtain ⟨-, -, -, -, rfl⟩ := Server.judge_eq_unserved judged
    simp [Server.unservedAnswer, Draft.answer, Draft.set, Draft.identified, Attributes.isResponse]

theorem Replies.isAnswerTo {w : World} {s : ServerId} {m a : Message} {j : Job} {es : List Event}
    {draft : Draft} {payload : Option Payload} {fresh : MessageId}
    (h : Replies w s m j es draft payload) (hf : draft.finish fresh payload = .ok a) :
    a.IsAnswerTo m := by
  refine ⟨fresh, draft, payload, hf, ?_⟩
  cases h with
  | ended h => exact .inl ⟨h, rfl⟩
  | unserved v draft server alive judged =>
    obtain ⟨-, -, -, -, rfl⟩ := Server.judge_eq_unserved judged
    exact .inr rfl

/-- What is posted is neither a request nor an answer. -/
theorem Operation.finish_posting {o : Operation} {l : LinkId} {resource : UInt16}
    {draft : Address → Draft} {payload : Option Payload} {options : SendOptions} {topic : Address}
    {fresh : MessageId} {m : Message}
    (posting : o.posting? = some (l, resource, draft, payload, options))
    (hf : (options.apply (draft topic)).finish fresh payload = .ok m) :
    m.attributes.isResponse = false ∧ m.attributes.isRequest = false := by
  obtain ⟨rfl, -⟩ := Draft.finish_ok hf
  have apply : ∀ d : Draft, ((options.apply d).identified fresh).kind = d.attributes.kind := by
    intro d
    cases hp : options.priority <;> cases ht : options.ttl <;> cases hk : options.token <;>
      simp [SendOptions.apply, hp, ht, hk, Draft.set?, Draft.set, Draft.identified]
  cases o <;> cases posting <;>
    simp [Attributes.isResponse, Attributes.isRequest, apply, Draft.publication,
      Draft.notification]

namespace World

variable {w v : World} {t : TaskId} {j : Job} {F : MessageId → Prop}

/-- What a server answers was delivered to it, or is so now. -/
theorem Honest.of_replies {s : ServerId} {m : Message} {es : List Event} {draft : Draft}
    {payload : Option Payload} (h : v.Honest F j) (hr : Replies w s m j es draft payload) :
    m.attributes.isRequest = true ∧ v.Genuine F m ∧
      (.delivered (.engine (.server s)) m ∈ es ∨ v.Has (.delivered (.engine (.server s)) m)) := by
  cases hr with
  | ended hd => exact ⟨(h.handles s hd m rfl).1, h.message m rfl, .inr (h.handles s hd m rfl).2⟩
  | unserved u draft server alive judged =>
    exact ⟨(Server.judge_eq_unserved judged).1, h.message m rfl, by simp⟩

namespace Traffic

/-! ## Moves -/

/-- What goes on with a listener sends the request that the listener was asked for. -/
theorem onward (h : (w.park t j).Traffic F) (free : w.tasks.get? t = none)
    (grows : (w.park t j).Grows v) {u : Use} (hu : j.use? = some u) (es : List Event)
    (dull : ∀ e ∈ es, (∀ v : World, v.Attested F e) ∧ ∀ l m, e ≠ .sent l m)
    (jobs : ∀ j', v.HasJob j' → (w.onward t u).2 = some j' ∨ w.HasJob j')
    (events : ∀ e, v.Has e ↔ e ∈ (w.onward t u).1 ∨ e ∈ es ∨ w.Has e) : v.Traffic F := by
  have hj := h.jobs j (hasJob_park w t j)
  cases u with
  | serve s method hd =>
    refine h.quiet free grows (fun j' hj' => (jobs j' hj').resolve_left (by simp [World.onward]))
      (.finished t (.ok ()) :: es) (fun e he => ?_) fun e he => ?_
    · have := (events e).mp he
      simp only [World.onward, List.mem_singleton] at this
      simpa [or_assoc] using this
    · rcases List.mem_cons.mp he with rfl | he
      · exact ⟨fun _ => trivial, by simp⟩
      · exact dull e he
  | request i id m =>
    have asks := hj.asks i id m hu
    cases hc : w.callers.get? i with
    | none =>
      simp only [World.onward, hc] at jobs events
      exact h.quiet free grows (fun j' hj' => (jobs j' hj').resolve_left (by simp)) es
        (fun e he => by simpa using (events e).mp he) dull
    | some c =>
      simp only [World.onward, hc] at jobs events
      have hp : (w.park t j).seat? (.caller i) = some c.seat := by simp [seat?, hc]
      obtain ⟨q, hq, hg⟩ := grows.seats _ _ hp
      have hs : v.Has (.sent q.link m) := (events _).mpr (.inl (by simp [hg.link]))
      have genuine : v.Genuine F m := .sent (asks.grow grows) hq hs
      refine h.sends free grows c.seat.link (.request i id) es
        (fun j' hj' => (jobs j' hj').imp (fun he => by simpa [eq_comm] using he) fun hw => hw)
        (fun e he => by simpa using (events e).mp he) genuine
        (fun e he => ⟨(dull e he).1 v, (dull e he).2⟩) fun hr _ _ _ => ?_
      exact ⟨hr, .inr ⟨j, i, id, hasJob_park w t j, hu⟩⟩

/-- A listener takes note of a message, and nothing comes of it. -/
theorem noted (h : (w.park t j).Traffic F) (free : w.tasks.get? t = none)
    (grows : (w.park t j).Grows v) (l : Listener) {m : Message} (hm : j.message? = some m)
    (es : List Event) (dull : ∀ e ∈ es, (∀ v : World, v.Attested F e) ∧ ∀ l m, e ≠ .sent l m)
    (jobs : ∀ j', v.HasJob j' → w.HasJob j')
    (events : ∀ e, v.Has e → e = .delivered l m ∨ e ∈ es ∨ w.Has e) : v.Traffic F := by
  have genuine := ((h.jobs j (hasJob_park w t j)).message m hm).grow grows
  refine h.next free grows [] (.delivered l m :: es) (fun j' hj' => .inr (jobs j' hj'))
    (fun e he => by simpa [or_assoc] using events e he) (by simp) (fun e he => ?_) (by simp)
    fun l' m' x he _ _ _ => ?_
  · rcases List.mem_cons.mp he with rfl | he
    · exact genuine
    · exact (dull e he).1 v
  · rcases List.mem_cons.mp he with he | he
    · cases he
    · exact absurd rfl ((dull _ he).2 l' m')

theorem pass {es : List Event} {next : Option Job} (h : (w.park t j).Traffic F)
    (free : w.tasks.get? t = none) (passes : Passes w t j es next)
    (grows : (w.park t j).Grows (w.proceed t es next)) : (w.proceed t es next).Traffic F := by
  have events : ∀ e, (w.proceed t es next).Has e ↔ e ∈ es ∨ w.Has e := fun _ => has_proceed
  have jobs : ∀ j', (w.proceed t es next).HasJob j' → next = some j' ∨ w.HasJob j' :=
    fun j' => HasJob.of_proceed
  have idle : next = none → ∀ j', (w.proceed t es next).HasJob j' → w.HasJob j' := by
    intro hn j' hj'
    exact (jobs j' hj').resolve_left (by simp [hn])
  cases passes with
  | noted key m =>
    exact h.noted free grows (.plain key) rfl [] (by simp) (idle rfl) fun e => by simp [events]
  | unexpected i c m caller alive unasked =>
    refine h.noted free grows (.engine (.caller i)) rfl
      (if c.reportsUnexpected then [.unexpected i m] else []) ?_ (idle rfl)
      fun e => by simp [events, or_assoc]
    split <;> simp [Attested]
  | ignored s v m server alive judged =>
    exact h.noted free grows (.engine (.server s)) rfl [] (by simp) (idle rfl)
      fun e => by simp [events]
  | served s v hd m server alive judged =>
    have genuine := ((h.jobs _ (hasJob_park w t _)).message m rfl).grow grows
    refine h.next free grows [.handle s hd m]
      [.delivered (.engine (.server s)) m, .handled s hd.key m]
      (fun j' hj' => (jobs j' hj').imp (fun he => by simpa [eq_comm] using he) fun hw => hw)
      (fun e he => (events e).mp he) ?_ ?_ (by simp [Job.use?]) (by simp)
    · intro j' hj'
      rw [List.mem_singleton.mp hj']
      refine ⟨fun m' hm' => ?_, by simp [Job.use?], fun s' hd' m' he => ?_⟩
      · cases hm'
        exact genuine
      · cases he
        refine ⟨(Server.judge_eq_served judged).1, ?_⟩
        exact (events _).mpr (.inl (by simp))
    · intro e he
      simp only [List.mem_cons, List.not_mem_nil, or_false] at he
      rcases he with rfl | rfl
      · exact genuine
      · trivial
  | useAtOnce u registered =>
    exact h.onward free grows rfl [] (by simp) jobs fun e => by simp [events]
  | use u registered =>
    exact h.onward free grows rfl [] (by simp) jobs fun e => by simp [events]
  | attempt u p seat unregistered => exact h.goes free grows rfl rfl rfl fun _ _ _ use => use
  | startSend l m =>
    have before := (h.jobs _ (hasJob_park w t _)).message m rfl
    refine h.sends free grows l (.report .plain) []
      (fun j' hj' => (jobs j' hj').imp (fun he => by simpa [eq_comm] using he) fun hw => hw)
      (fun e he => by simpa using (events e).mp he) (before.grow grows) (by simp)
      fun hr x hF hx => ?_
    -- a request under one of the ids is passed on only after it was sent
    obtain ⟨i, p, _, _, hs⟩ := before.request hr x hx hF
    exact ⟨hr, .inl ⟨p.link, hs⟩⟩
  | sendRefused l m after s refusal other =>
    refine h.quiet free grows (idle rfl) _ (fun e => (events e).mp) ?_
    cases after <;> simp [AfterSend.events, Attested]
  | unregisterRefused l source sink listener after s refusal =>
    refine h.quiet free grows (idle rfl) _ (fun e => (events e).mp) ?_
    cases after <;> simp [AfterUnregister.events, Attested]
  | withdraw l sink e => exact h.goes free grows rfl rfl rfl (by simp [Job.use?])
  | startRegister l source sink key r => exact h.goes free grows rfl rfl rfl (by simp [Job.use?])
  | startUnregister l source sink key r => exact h.goes free grows rfl rfl rfl (by simp [Job.use?])
  | startAwait k => exact h.goes free grows rfl rfl rfl (by simp [Job.use?])
  | _ => exact h.quiet free grows (idle rfl) _ (fun e => (events e).mp) (by simp [Attested])

/-- A request under one of the ids that is sent, or about to be, belongs to an accepted call. -/
theorem accepted_of_knows (h : w.Traffic F) {m : Message} {id : MessageId} (knows : w.Knows m)
    (hid : m.attributes.id = some id) (hF : F id) : ∃ i, id ∈ accepted i w.events := by
  rcases knows with ⟨hr, ⟨l, hl⟩ | ⟨j, i, id', hj, hu⟩⟩
  · obtain ⟨i, p, _, ha, _⟩ := Genuine.request (h.events _ hl) hr id hid hF
    exact ⟨i, ha⟩
  · obtain ⟨_, hid', ha⟩ := (h.jobs j hj).asks i id' m hu
    rw [hid] at hid'
    cases hid'
    exact ⟨i, ha⟩

/-- A new call makes its own request known and no other. -/
theorem knows_accept {i : CallerId} {m m' : Message} {id : MessageId} {timeout : Duration}
    (h : (w.mint.2.accept i m id timeout).2.Knows m') : m' = m ∨ w.Knows m' := by
  obtain ⟨hr, ⟨l, hl⟩ | ⟨j, i', id', hj, hu⟩⟩ := h
  · have old : w.mint.2.Has (.sent l m') := (has_accept.mp hl).resolve_left (by simp)
    exact .inr ⟨hr, .inl ⟨l, has_mint.mp old⟩⟩
  · rcases hj.of_accept with rfl | rfl | hj
    · cases hu
    · cases hu
      exact .inl rfl
    · exact .inr ⟨hr, .inr ⟨j, i', id', hj, hu⟩⟩

/-- A new call comes with the one request under its id. -/
theorem accept {i : CallerId} {m : Message} (h : w.Traffic F)
    (ledger : w.Ledger none) (distinct : w.mint.2.ids.Distinct)
    (hm : m.attributes.isRequest = true) (hid : m.attributes.id = some w.mint.1)
    (timeout : Duration) : (w.mint.2.accept i m w.mint.1 timeout).2.Traffic F := by
  have hnew := ledger.not_accepted distinct
  generalize hx : w.mint.1 = id at hnew hid
  have grows : w.Grows (w.mint.2.accept i m id timeout).2 :=
    ⟨rfl, Nat.le_succ _, List.suffix_cons .., Grows.seats_of_same fun e => accept_seat? ..⟩
  have asks : (w.mint.2.accept i m id timeout).2.Asks i id m := ⟨hm, hid, by simp [accepted]⟩
  -- nobody knew of a request under the new id
  have strange : F id → ∀ m', w.Knows m' → m'.attributes.id ≠ some id := by
    intro hF m' hk hid'
    obtain ⟨j, ha⟩ := h.accepted_of_knows hk hid' hF
    exact hnew j ha
  refine ⟨fun j hj => ?_, fun e he => ?_, fun m₁ m₂ h₁ h₂ x hF hx₁ hx₂ => ?_⟩
  · rcases hj.of_accept with rfl | rfl | hj
    · exact .silent rfl (by simp [Job.use?])
    · refine ⟨by simp [Job.message?], fun i' id' m' hu => ?_, by simp⟩
      cases hu
      exact asks
    · exact (h.jobs j hj).grow grows
  · rcases has_accept.mp he with rfl | he
    · trivial
    · exact Attested.grow (h.events e he) grows
  · rcases knows_accept h₁ with rfl | hk₁ <;> rcases knows_accept h₂ with rfl | hk₂
    · rfl
    · rw [hid] at hx₁
      cases hx₁
      exact absurd hx₂ (strange hF m₂ hk₂)
    · rw [hid] at hx₂
      cases hx₂
      exact absurd hx₁ (strange hF m₁ hk₁)
    · exact h.sole m₁ m₂ hk₁ hk₂ x hF hx₁ hx₂

theorem of_same (h : w.Traffic F) (grows : w.Grows v) (jobs : ∀ j, v.HasJob j → w.HasJob j)
    (events : v.events = w.events) : v.Traffic F :=
  h.step grows (fun j hj => .inr (jobs j hj)) (fun e he => .inr ((has_congr events).mp he))
    fun m x hm _ _ => by
      obtain ⟨hr, ⟨l, hl⟩ | ⟨j, i, id, hj, hu⟩⟩ := hm
      · exact ⟨hr, .inl ⟨l, (has_congr events).mp hl⟩⟩
      · exact ⟨hr, .inr ⟨j, i, id, jobs j hj, hu⟩⟩

/-- Without the running task there is less to be honest about. -/
theorem unpark (h : (w.park t j).Traffic F) (free : w.tasks.get? t = none) : w.Traffic F :=
  h.of_same (.unpark w t j)
    (fun _ hj => hj.of_sub ((Table.Sub.refl _).set free _)) rfl

theorem park (h : w.Traffic F) (honest : w.Honest F j)
    (hu : ∀ i id m, j.use? ≠ some (.request i id m)) : (w.park t j).Traffic F := by
  have grows : w.Grows (w.park t j) := .park w t j
  refine h.step grows (fun j' hj' => ?_) (fun e he => .inr he) fun m x hm _ _ => ?_
  · rcases hj'.of_set (w := w) (t := t) rfl with rfl | hw
    · exact .inl (honest.grow grows)
    · exact .inr hw
  · obtain ⟨hr, ⟨l, hl⟩ | ⟨j', i, id, hj', hu'⟩⟩ := hm
    · exact ⟨hr, .inl ⟨l, hl⟩⟩
    · rcases hj'.of_set (w := w) (t := t) rfl with rfl | hw
      · exact absurd hu' (hu i id m)
      · exact ⟨hr, .inr ⟨j', i, id, hw, hu'⟩⟩

theorem record (h : w.Traffic F) {e : Event} (attested : (w.record e).Attested F e)
    (he : ∀ l m, e ≠ .sent l m) : (w.record e).Traffic F := by
  have grows : w.Grows (w.record e) :=
    ⟨rfl, Nat.le_refl _, List.suffix_cons .., Grows.seats_of_same fun _ => rfl⟩
  refine h.step grows (fun j hj => .inr (hj.of_same rfl)) (fun e' he' => ?_) fun m x hm _ _ => ?_
  · rcases has_record.mp he' with rfl | hw
    · exact .inl attested
    · exact .inr hw
  · obtain ⟨hr, ⟨l, hl⟩ | ⟨j, i, id, hj, hu⟩⟩ := hm
    · exact ⟨hr, .inl ⟨l, (has_record.mp hl).resolve_left fun hc => he l m hc.symm⟩⟩
    · exact ⟨hr, .inr ⟨j, i, id, hj.of_same rfl, hu⟩⟩

theorem invoke (h : w.Traffic F) (ledger : w.Ledger none) (i : CallerId)
    (method : Address) (payload : Option Payload) (options : CallOptions)
    (distinct : (w.invoke i method payload options).2.ids.Distinct) :
    (w.invoke i method payload options).2.Traffic F := by
  rcases invoke_cases w i method payload options with
    ⟨e, he⟩ | ⟨e, he⟩ | ⟨c, m, hc, _, hf, _, he⟩
  · rw [he]
    exact h
  · rw [he]
    exact h.of_same ⟨rfl, Nat.le_succ _, List.suffix_refl _, Grows.seats_of_same fun _ => rfl⟩
      (fun j hj => hj.of_same rfl) rfl
  · rw [he] at distinct ⊢
    have hd := Caller.finish_draft hf
    exact h.accept ledger distinct hd.1 hd.2.1 _

theorem remove (h : w.Traffic F) {e : EngineId} {p : Seat} {side : Side}
    (grows : w.Grows (w.remove e p side)) : (w.remove e p side).Traffic F := by
  refine h.step grows (fun j hj => ?_) (fun e he => .inr ?_) fun m x hk _ _ => ?_
  · rcases hj.of_remove with ⟨-, -, rfl⟩ | hj
    · exact .inl (.silent rfl (by simp [Job.use?]))
    · exact .inr hj
  · exact (has_congr (by simp)).mp he
  · obtain ⟨hr, ⟨l, hl⟩ | ⟨j, i, id, hj, hu⟩⟩ := hk
    · exact ⟨hr, .inl ⟨l, (has_congr (by simp)).mp hl⟩⟩
    · rcases hj.of_remove with ⟨-, -, rfl⟩ | hj
      · cases hu
      · exact ⟨hr, .inr ⟨j, i, id, hj, hu⟩⟩

/-- An answer is traced back to the request that the server was given. -/
theorem reply {l : LinkId} {s : ServerId} {m a : Message} {es : List Event} {draft : Draft}
    {payload : Option Payload} {fresh : MessageId} (h : (w.park t j).Traffic F)
    (free : w.tasks.get? t = none) (grows : (w.park t j).Grows v)
    (replies : Replies w s m j es draft payload) (finish : draft.finish fresh payload = .ok a)
    (jobs : ∀ j', v.HasJob j' → j' = .send l a (.answer s) ∨ w.HasJob j')
    (events : ∀ e, v.Has e ↔ e = .sent l a ∨ e = .answered s m a ∨ e ∈ es ∨ w.Has e) :
    v.Traffic F := by
  obtain ⟨request, asked, delivered⟩ := (h.jobs j (hasJob_park w t j)).of_replies replies
  obtain ⟨response, requestId, -, -⟩ := replies.finish finish
  have unasked : a.attributes.isRequest ≠ true := by
    intro request
    rw [Attributes.isResponse_of_isRequest request] at response
    cases response
  have genuine : v.Genuine F a :=
    ⟨fun _ x _ _ => ⟨s, m, (events _).mpr (.inr (.inl rfl))⟩, fun hr => absurd hr unasked⟩
  have delivered : v.Has (.delivered (.engine (.server s)) m) :=
    (events _).mpr (.inr (.inr (delivered.imp id fun hw => hw)))
  refine h.sends free grows l (.answer s) (.answered s m a :: es) jobs
    (fun e he => by simpa [or_assoc] using (events e).mp he) genuine (fun e he => ?_)
    fun hr => absurd hr unasked
  rcases List.mem_cons.mp he with rfl | he
  · refine ⟨?_, by simp⟩
    exact ⟨request, response, requestId, replies.isAnswerTo finish, asked.grow grows, delivered⟩
  · cases replies with
    | ended hd => cases he
    | unserved v draft server alive judged =>
      rw [List.mem_singleton.mp he]
      exact ⟨asked.grow grows, by simp⟩

/-- What the hub hands to its listeners is what was sent. -/
theorem broadcast {l : LinkId} {m : Message} {after : AfterSend}
    (h : (w.park t (.send l m after)).Traffic F) (free : w.tasks.get? t = none) (tidy : w.Tidy)
    (grows : (w.park t (.send l m after)).Grows
      ((w.broadcast m).recordAll (after.events t (.ok ())))) :
    ((w.broadcast m).recordAll (after.events t (.ok ()))).Traffic F := by
  have genuine := ((h.jobs _ (hasJob_park w t _)).message m rfl).grow grows
  refine h.next free grows ((w.hub.recipients m).map (.deliver · m)) (after.events t (.ok ()))
    (fun j' hj' => ?_) (fun e he => ?_) (fun j' hj' => ?_) ?_ ?_ ?_
  · have hb : (w.broadcast m).HasJob j' := hj'.of_same (by simp)
    rcases hb.of_broadcast tidy with ⟨l, hl, rfl⟩ | hw
    · exact .inl (List.mem_map_of_mem hl)
    · exact .inr hw
  · exact (has_recordAll.mp he).imp id (has_congr (by simp)).mp
  · obtain ⟨l, _, rfl⟩ := List.mem_map.mp hj'
    exact .of_genuine rfl genuine rfl (by simp)
  · cases after <;> simp [AfterSend.events, Attested]
  · intro j' hj' i id m' hu
    obtain ⟨l, _, rfl⟩ := List.mem_map.mp hj'
    cases hu
  · cases after <;> simp [AfterSend.events]

/-- The running task ends a call, for a reason that is nothing of note. -/
theorem ends {u : World} {i : CallerId} {id : MessageId} {cause : Cause}
    (h : (w.park t j).Traffic F) (free : w.tasks.get? t = none)
    (grows : (w.park t j).Grows (u.complete i id cause)) (tasks : u.tasks = w.tasks)
    (es : List Event) (events : ∀ e, u.Has e → e ∈ es ∨ w.Has e)
    (dull : ∀ e ∈ es, (∀ v : World, v.Attested F e) ∧ ∀ l m, e ≠ .sent l m) :
    (u.complete i id cause).Traffic F := by
  refine h.quiet free grows (fun j' hj' => hj'.of_complete.of_same tasks) (.ended i id cause :: es)
    (fun e he => ?_) fun e he => ?_
  · rcases has_complete.mp he with rfl | he
    · exact .inl List.mem_cons_self
    · exact (events e he).imp_left (List.mem_cons_of_mem _)
  · rcases List.mem_cons.mp he with rfl | he
    · exact ⟨fun _ => trivial, by simp⟩
    · exact dull e he

/-- A caller takes note of an answer, and its call ends. -/
theorem answered {i : CallerId} {m : Message} {id : MessageId}
    (h : (w.park t (.deliver (.engine (.caller i)) m)).Traffic F) (free : w.tasks.get? t = none)
    {es : List Event} (dull : ∀ e ∈ es, e = .unexpected i m)
    (grows : (w.park t (.deliver (.engine (.caller i)) m)).Grows
      (((w.record (.delivered (.engine (.caller i)) m)).complete i id (.answered m)).recordAll
        es)) :
    (((w.record (.delivered (.engine (.caller i)) m)).complete i id (.answered m)).recordAll
      es).Traffic F := by
  refine h.noted free grows (.engine (.caller i)) rfl (.ended i id (.answered m) :: es)
    (fun e he => ?_) (fun j' hj' => ?_) fun e he => ?_
  · rcases List.mem_cons.mp he with rfl | he
    · exact ⟨fun _ => trivial, by simp⟩
    · rw [dull e he]
      exact ⟨fun _ => trivial, by simp⟩
  · have completed : ((w.record (.delivered (.engine (.caller i)) m)).complete i id
        (.answered m)).HasJob j' := hj'.of_same (by simp)
    exact completed.of_complete.of_same rfl
  · simp only [has_recordAll, has_complete, has_record] at he
    rcases he with he | rfl | rfl | he
    · exact .inr (.inl (List.mem_cons_of_mem _ he))
    · exact .inr (.inl List.mem_cons_self)
    · exact .inl rfl
    · exact .inr (.inr he)

/-- A server has an answer that breaks the rules, and drops it. -/
theorem muted {s : ServerId} {m : Message} {es : List Event} {draft : Draft}
    {payload : Option Payload} (h : (w.park t j).Traffic F) (free : w.tasks.get? t = none)
    (grows : (w.park t j).Grows (w.recordAll es).mint.2)
    (replies : Replies w s m j es draft payload) : (w.recordAll es).mint.2.Traffic F := by
  have events : ∀ e, (w.recordAll es).mint.2.Has e → e ∈ es ∨ w.Has e := fun e he => by
    simpa using he
  cases replies with
  | ended hd => exact h.quiet free grows (fun j' hj' => hj'.of_same (by simp)) [] events (by simp)
  | unserved v draft server alive judged =>
    exact h.noted free grows (.engine (.server s)) rfl [] (by simp)
      (fun j' hj' => hj'.of_same (by simp)) fun e he => by simpa using events e he

theorem invoked {i : CallerId} {method : Address} {payload : Option Payload}
    {options : CallOptions} {r : Except Failure Accepted}
    (h : (w.park t (.start (.call i method (.ok payload) options))).Traffic F)
    (ledger : (w.park t (.start (.call i method (.ok payload) options))).Ledger none)
    (free : w.tasks.get? t = none) (distinct : v.ids.Distinct)
    (invoked : w.invoke i method payload options = (r, v)) : v.Traffic F := by
  obtain rfl : v = (w.invoke i method payload options).2 := by rw [invoked]
  exact (h.unpark free).invoke ledger.unpark.weaken i method payload options distinct

theorem move {a b : Option TaskId × World} (hm : Move a b) (tidy : a.2.Tidy)
    (ledger : a.2.Ledger none) (distinct : b.2.ids.Distinct) (h : a.2.Traffic F) :
    b.2.Traffic F := by
  have grows := hm.grows
  cases hm with
  | remove seat unowned alive unheld => exact h.remove grows
  | pass free passes => exact h.pass free passes grows
  -- the task waits, or goes on without a message
  | doze free dozes => exact h.of_same grows (fun j' hj' => hj'.of_same rfl) rfl
  | await free place pending => exact h.of_same grows (fun j' hj' => hj'.of_same rfl) rfl
  | rest free => exact h.goes free grows rfl rfl rfl (by simp [Job.use?])
  | arm free => exact h.goes free grows rfl rfl rfl (by simp [Job.use?])
  | claim free seat vacant =>
    exact h.goes free grows (park_tasks_congr (by simp)) (by simp) rfl fun _ _ _ use => use
  | wait free seat attempting =>
    exact h.goes free grows (park_tasks_congr (by simp)) (by simp) rfl fun _ _ _ use => use
  | addHandler free server vacant =>
    exact h.goes free grows (park_tasks_congr (by simp)) (by simp) rfl (by simp [Job.use?])
  | closeListening free seat opened registered =>
    exact h.goes free grows (park_tasks_congr (by simp)) (by simp) rfl (by simp [Job.use?])
  -- the task ends a call
  | expire free => exact h.ends free grows rfl [] (fun e he => .inr he) (by simp)
  | refuse free refusal => exact h.ends free grows rfl [] (fun e he => .inr he) (by simp)
  | @failRequest w t r i id m s free refusal =>
    exact h.ends free grows (by simp) [.attempted (.caller i) (.error s)]
      (fun e he => by simpa using he) (by simp [Attested])
  | answered free caller alive answers => exact h.answered free (by split <;> simp) grows
  -- the task ends, and tells of it at most
  | @failServe w t r sv method hd s free refusal =>
    exact h.quiet free grows (fun j' hj' => hj'.of_same (by simp))
      [.finished t (.error (.failure (.transport s))), .attempted (.server sv) (.error s)]
      (fun e he => by simpa [or_assoc] using he) (by simp [Attested])
  | @enlist w t r p hub free registration =>
    exact h.quiet free grows (fun j' hj' => hj'.of_same (by simp))
      [.finished t (p.result (.ok ()))] (fun e he => by simpa using he) (by simp [Attested])
  | @unlist w t l source sink listener after hub free unregistration =>
    refine h.quiet free grows (fun j' hj' => hj'.of_same (by simp)) (after.events t (.ok ()))
      (fun e he => by simpa using he) ?_
    cases after <;> simp [AfterUnregister.events, Attested]
  | @closeDeaf w t e p free seat opened unregistered =>
    exact h.quiet free grows (fun j' hj' => hj'.of_same (by simp)) [.finished t (.ok ())]
      (fun e he => by simpa using he) (by simp [Attested])
  | @postInvalid w t o l resource draft payload options link topic e free posting linked onTopic
      finish =>
    exact h.quiet free grows (fun j' hj' => hj'.of_same rfl)
      [.finished t (.error (.failure e))] (fun e he => by simpa using he) (by simp [Attested])
  | mute free server replies finish => exact h.muted free grows replies
  -- the task passes a message on
  | @reply w t s v m a j es draft payload free server replies finish =>
    exact h.reply (l := v.seat.link) free grows replies finish
      (fun j' hj' => hj'.of_set (w := w) (t := t) (by simp)) fun e => by simp
  | @enrol w t r u hub free registration =>
    refine h.onward free grows rfl [.attempted u.engine (.ok ())] (by simp [Attested])
      (fun j' hj' => ?_) fun e => by simp [has_proceed]
    exact hj'.of_proceed.imp_right fun old => old.of_same (by simp)
  | broadcast free accepted => exact h.broadcast free tidy.unpark grows
  | @post w t o l resource draft payload options link topic m free posting linked onTopic finish =>
    obtain ⟨response, request⟩ := Operation.finish_posting posting finish
    refine h.sends free grows l (.report .sending) [] (fun j' hj' => hj'.of_set (w := w) rfl)
      (fun e he => by simpa using he) ?_ (by simp) fun hr => ?_
    · exact ⟨fun hr => by simp [response] at hr, fun hr => by simp [request] at hr⟩
    · simp [request] at hr
  -- the task makes a call
  | @call w v t i method payload options accepted free invoked =>
    have made : v.Traffic F := h.invoked ledger free distinct invoked
    exact made.park (.silent rfl (by simp [Job.use?])) (by simp [Job.use?])
  | @callRefused w v t i method payload options e free invoked =>
    have refused : v.Traffic F := h.invoked ledger free distinct invoked
    exact refused.record trivial (by simp)

/-! ## Outsets -/

/-- What is no answer under the ids, and repeats a request that was sent if it is one, is
genuine. -/
theorem genuine {a : Act} {m : Message} (h : w.Traffic F) (respects : a.Respects F w)
    (hm : a.message? = some m) : w.Genuine F m := by
  obtain ⟨hresp, hreq⟩ := respects m hm
  refine ⟨fun hr x hx hF => absurd hF (hresp hr x hx), fun hr x hx hF => ?_⟩
  obtain ⟨l, hl⟩ := hreq hr x hx hF
  exact Genuine.request (h.events _ hl) hr x hx hF

theorem start (h : w.Traffic F) (grows : w.Grows v) (j : Job)
    (jobs : ∀ j', v.HasJob j' → j' = j ∨ w.HasJob j') (events : v.events = w.events)
    (honest : w.Honest F j) (hu : j.use? = none) : v.Traffic F := by
  refine h.step grows (fun j' hj' => ?_) (fun e he => .inr ((has_congr events).mp he))
    fun m x hm _ _ => ?_
  · rcases jobs j' hj' with rfl | hw
    · exact .inl (honest.grow grows)
    · exact .inr hw
  · obtain ⟨hr, ⟨l, hl⟩ | ⟨j', i, id, hj', hu'⟩⟩ := hm
    · exact ⟨hr, .inl ⟨l, (has_congr events).mp hl⟩⟩
    · rcases jobs j' hj' with rfl | hw
      · rw [hu] at hu'
        cases hu'
      · exact ⟨hr, .inr ⟨j', i, id, hw, hu'⟩⟩

theorem outset {a : Act} {b : Option TaskId × World} (ho : Outset w a b) (tidy : w.Tidy)
    (ledger : w.Ledger none) (distinct : b.2.ids.Distinct) (respects : a.Respects F w)
    (h : w.Traffic F) : b.2.Traffic F := by
  have grows := ho.grows tidy
  -- an operation that is started brings at most a message from outside
  have started : ∀ o, (a = .command (.enter o) ∨ a = .command (.spawn o)) →
      w.Honest F (.start o) := by
    intro o ha
    refine ⟨fun m hm => h.genuine respects ?_, by simp [Job.use?], by simp⟩
    cases o <;> cases hm
    rcases ha with rfl | rfl <;> rfl
  cases ho with
  | take t j ready task =>
    refine h.of_same grows (fun j' hj' => ?_) rfl
    obtain ⟨k, x, hk, rfl⟩ := hj'
    simp only [park_keeps, without_keeps, Table.get?_set, Table.get?_erase] at hk
    split at hk
    · cases hk
      exact ⟨t, _, task, rfl⟩
    · exact ⟨k, x, hk, rfl⟩
  | discard t j ready task =>
    refine h.of_same grows (fun j' hj' => ?_) rfl
    obtain ⟨k, x, hk, rfl⟩ := hj'
    simp only [without_keeps, Table.get?_erase] at hk
    split at hk
    · cases hk
    · exact ⟨k, x, hk, rfl⟩
  | enter o allowed =>
    refine h.start grows (.start o) (fun j' hj' => ?_) rfl (started o (.inl rfl)) rfl
    rcases hj'.of_set (w := { w with tasks := w.tasks.reserve.2 }) rfl with rfl | hw
    · exact .inl rfl
    · exact .inr hw
  | spawn o allowed =>
    exact h.start grows (.start o) (fun j' hj' => hj'.of_insert rfl) rfl (started o (.inr rfl)) rfl
  | inbound l m =>
    refine h.start grows (.deliver l m) (fun j' hj' => hj'.of_insert rfl) rfl ?_ rfl
    exact .of_genuine rfl (h.genuine respects rfl) rfl (by simp)
  | invoke i method payload options owned => exact h.invoke ledger i method payload options distinct
  | fire due next =>
    exact h.of_same grows (fun j hj => hj.of_same (by simp [World.fire])) (by simp [World.fire])
  | hold e owned =>
    exact h.of_same grows (fun j hj => hj.of_same (by simp [World.hold])) (by simp [World.hold])
  | drop e side owned => exact h.of_same grows (fun j hj => hj.of_same (by simp)) (by simp)
  | _ => exact h.of_same grows (fun j hj => hj.of_same rfl) rfl

end Traffic

theorem Traffic.kept : Kept (fun w a => a.Respects F w)
    (fun a => (a.2.ids.Distinct → a.2.Ledger none) ∧ (a.2.ids.Distinct → a.2.Traffic F)) :=
  (Ledger.kept.mono fun _ _ _ => trivial).add
    (fun tidy ho respects ledger _ before distinct =>
      have old := (ho.grows tidy).distinct distinct
      Traffic.outset ho tidy (ledger old) distinct respects (before old))
    fun tidy hm ledger _ before distinct =>
      have old := hm.grows.distinct distinct
      Traffic.move hm tidy (ledger old) distinct (before old)

/-- Every message can be traced back after a run that respects the ids. -/
theorem traffic_after {as : List Act} (new : w.IsNew) (run : w.CanRun as)
    (respects : Along (fun v a => a.Respects F v) w as) (distinct : (w.after as).ids.Distinct) :
    (w.after as).Traffic F :=
  (Traffic.kept.run run respects (.new new) ⟨fun _ => .new new, fun _ => .new new⟩).2.2 distinct

end World

end Switchboard
