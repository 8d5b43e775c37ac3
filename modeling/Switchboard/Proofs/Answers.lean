import Switchboard.Proofs.Traffic

/-! # What an answer tells the caller

A handler's ending travels to the caller in two attributes and a payload of one
message. Main statements: the caller reads from the answer what the handler ended
with (`Ending.outcome_answer`), and the answer to a valid request is valid, so that
it is sent (`Replies.exists_finish`).
-/

namespace Switchboard

/-- The outcome that a call is to have when its handler ends: a failure that comes with the code of
success counts as success without a payload. -/
def Ending.outcome : Ending → Except Failure Payload
  | returned payload => .ok (payload.getD Payload.empty)
  | failed f => if f.toStatus.code = .ok then .ok Payload.empty else .error (.remote f.toStatus)
  | panicked reason => .error (.remote (panicStatus reason))

/-- The outcome that a call to the method is to have when its request reaches the server. -/
def Server.outcome (v : Server) (method : Address) (request : Message) :
    Except Failure Payload :=
  match v.handler? method with
  | some h => (h.run request).outcome
  | none => .error (.remote ⟨.notFound, "no handler registered for " ++ method.text⟩)

theorem Server.outcome_of_served {v : Server} {now : Nat} {m : Message} {h : Handler}
    {method : Address} (judged : v.judge now m = .served h)
    (sink : m.attributes.sink = some method) : v.outcome method m = (h.run m).outcome := by
  obtain ⟨-, -, -, served⟩ := judge_eq_served judged
  rw [sink, Option.bind_some] at served
  simp only [outcome, served]

/-- A text that is not kept since it is empty is read as the empty text. -/
@[simp] theorem getD_kept_text (text : String) :
    (if text = "" then none else some text).getD "" = text := by
  split
  · rename_i he
    exact he.symm
  · rfl

theorem Message.outcome_of_commStatus {m : Message} (code : Code) (text : String)
    (status : m.attributes.commStatus = some code)
    (message : m.attributes.commMessage = if text.isEmpty then none else some text) :
    m.outcome = if code = .ok then .ok m.payloadOrEmpty else .error (.remote ⟨code, text⟩) := by
  by_cases hc : code = .ok
  · simp [Message.outcome, status, Attributes.hasFailureStatus, hc]
  · simp [Message.outcome, status, Attributes.hasFailureStatus, hc, message]

/-- The caller reads from an answer what the handler ended with. -/
theorem Ending.outcome_answer {e : Ending} {request : Attributes} {fresh : MessageId} {a : Message}
    (finish : (e.answer request).1.finish fresh (e.answer request).2 = .ok a) :
    a.outcome = e.outcome := by
  obtain ⟨rfl, -⟩ := Draft.finish_ok finish
  cases e with
  | returned payload =>
    simp [answer, Draft.answer, Draft.identified, Message.outcome, Message.payloadOrEmpty, outcome]
  | failed f =>
    rw [Message.outcome_of_commStatus f.toStatus.code f.toStatus.message rfl rfl]
    rfl
  | panicked reason =>
    rw [Message.outcome_of_commStatus (panicStatus reason).code (panicStatus reason).message rfl
      rfl]
    rfl

theorem Attributes.valid_request {a : Attributes} (kind : a.isRequest = true)
    (valid : a.isValid = true) : a.source.isSome = true ∧ a.sink.isSome = true ∧
      a.priority ≠ .unspecified := by
  have own : a.kind = RuleSet.request.kind := eq_of_beq kind
  obtain ⟨common, request⟩ := (isValid_iff_of_kind own).mp valid
  obtain ⟨-, source, priority⟩ := commonDefects_eq_nil.mp common
  obtain ⟨sink, -⟩ := List.append_eq_nil_iff.mp request
  exact ⟨source, by simpa using sink, priority⟩

theorem Attributes.valid_response {a : Attributes} {id : MessageId} (kind : a.kind = .response)
    (dated : a.id = some id) (valid : id.isValid = true) (source : a.source.isSome = true)
    (sink : a.sink.isSome = true) (priority : a.priority ≠ .unspecified)
    (requestId : a.requestId.isSome = true) : a.validate = .ok () := by
  have own : a.kind = RuleSet.response.kind := kind
  have common : a.commonDefects = [] :=
    commonDefects_eq_nil.mpr ⟨by rw [dated, Option.any_some, valid], source, priority⟩
  have response : a.kindDefects .response = [] := by simp [kindDefects, sink, requestId]
  exact isValid_iff.mp ((isValid_iff_of_kind own).mpr ⟨common, response⟩)

/-- A server answers a request with what its handler ended with, or says that it has none. -/
theorem Replies.outcome {w : World} {s : ServerId} {m a : Message} {j : Job} {es : List Event}
    {draft : Draft} {payload : Option Payload} {fresh : MessageId}
    (h : Replies w s m j es draft payload) (finish : draft.finish fresh payload = .ok a) :
    (∃ hd, j = .handle s hd m ∧ a.outcome = (hd.run m).outcome) ∨
      j = .deliver (.engine (.server s)) m ∧ ∃ v, w.servers.get? s = some v ∧
        v.seat.gone = false ∧ m.attributes.isRequest = true ∧
        m.attributes.sink.bind v.handler? = none ∧
        a.outcome = .error (.remote ⟨.notFound,
          "no handler registered for " ++ (m.attributes.sink.getD Address.any).text⟩) := by
  cases h with
  | ended h => exact .inl ⟨h, rfl, Ending.outcome_answer finish⟩
  | unserved v draft server alive judged =>
    obtain ⟨request, -, -, unserved, rfl⟩ := Server.judge_eq_unserved judged
    refine .inr ⟨rfl, v, server, alive, request, unserved, ?_⟩
    obtain ⟨rfl, -⟩ := Draft.finish_ok finish
    exact Message.outcome_of_commStatus .notFound
      ("no handler registered for " ++ (m.attributes.sink.getD Address.any).text) rfl rfl

/-- The answer to a valid request is valid. -/
theorem Replies.exists_finish {w : World} {s : ServerId} {m : Message} {j : Job} {es : List Event}
    {draft : Draft} {payload : Option Payload} {fresh : MessageId}
    (h : Replies w s m j es draft payload) (request : m.attributes.isRequest = true)
    (valid : m.attributes.isValid = true) (identified : m.attributes.id.isSome = true)
    (dated : fresh.isValid = true) : ∃ a, draft.finish fresh payload = .ok a := by
  obtain ⟨source, sink, priority⟩ := Attributes.valid_request request valid
  have answers : ∀ d : Draft, d.attributes.kind = .response → d.attributes.id = none →
      d.attributes.source = m.attributes.sink → d.attributes.sink = m.attributes.source →
      d.attributes.priority = m.attributes.priority → d.attributes.requestId = m.attributes.id →
      ∃ a, d.finish fresh payload = .ok a := by
    intro d hk hi hs ht hp hr
    have ok : (d.identified fresh).validate = .ok () := by
      have hid : (d.identified fresh).id = some fresh := by simp [Draft.identified, hi]
      refine Attributes.valid_response ?_ hid dated ?_ ?_ ?_ ?_ <;> simp_all [Draft.identified]
    exact ⟨⟨d.identified fresh, payload⟩, by rw [Draft.finish, ok]⟩
  cases h with
  | ended h =>
    refine answers _ ?_ ?_ ?_ ?_ ?_ ?_ <;> cases h.run m <;> rfl
  | unserved v draft server alive judged =>
    obtain ⟨-, -, -, -, rfl⟩ := Server.judge_eq_unserved judged
    exact answers _ rfl rfl rfl rfl rfl rfl

end Switchboard
