import Switchboard.Validation

/-!
# Drafts

A draft is a message in the making. It starts from one of the four kinds with
the attributes that the kind requires, takes further attributes, and is finished
into a message: a missing id is supplied, and the rules of the kind are checked,
so a finished message is always valid.
-/

namespace Switchboard

/-- A message in the making. -/
structure Draft where
  attributes : Attributes
  deriving DecidableEq, Repr

namespace Draft

/-- A publication of a topic, which has no sink. -/
def publication (topic : Address) : Draft :=
  ⟨{ kind := .publish, source := some topic, priority := .standard }⟩

def notification (topic destination : Address) : Draft :=
  ⟨{ kind := .notification, source := some topic, sink := some destination,
     priority := .forCalls }⟩

/-- A request to a method, to be answered to `replyTo` within `ttl` milliseconds. -/
def request (replyTo method : Address) (ttl : UInt32) : Draft :=
  ⟨{ kind := .request, source := some replyTo, sink := some method, priority := .forCalls,
     ttl := some ttl }⟩

/-- The answer to a request: from the method back to the asker, with the request's id, priority
and time to live. -/
def answer (request : Attributes) : Draft :=
  ⟨{ kind := .response, source := request.sink, sink := request.source,
     priority := request.priority, ttl := request.ttl, requestId := request.id }⟩

def response (replyTo method : Address) (requestId : MessageId) : Draft :=
  ⟨{ kind := .response, source := some method, sink := some replyTo, priority := .forCalls,
     requestId := some requestId }⟩

/-- One further attribute of a draft. -/
inductive Setting
  | sink (sink : Address)
  | priority (priority : Priority)
  | ttl (ttl : UInt32)
  | token (token : String)
  | id (id : MessageId)
  /-- Code and text of the outcome; an empty text is not kept. -/
  | commStatus (code : Code) (message : String)
  deriving DecidableEq, Repr

/-- The draft with a further attribute, which replaces an earlier one of its kind. -/
def set (d : Draft) : Setting → Draft
  | .sink sink => ⟨{ d.attributes with sink := some sink }⟩
  | .priority priority => ⟨{ d.attributes with priority := priority }⟩
  | .ttl ttl => ⟨{ d.attributes with ttl := some ttl }⟩
  | .token token => ⟨{ d.attributes with token := some token }⟩
  | .id id => ⟨{ d.attributes with id := some id }⟩
  | .commStatus code message =>
    ⟨{ d.attributes with
       commStatus := some code
       commMessage := if message.isEmpty then none else some message }⟩

def setAll (d : Draft) (settings : List Setting) : Draft :=
  settings.foldl set d

def set? (d : Draft) (setting : α → Setting) : Option α → Draft
  | none => d
  | some a => d.set (setting a)

/-- The attributes of the draft, with the fresh id where it has none of its own. -/
def identified (d : Draft) (fresh : MessageId) : Attributes :=
  { d.attributes with id := some (d.attributes.id.getD fresh) }

/-- The finished message, or the defects of the draft. The id is supplied before the rules are
checked, so a draft without an id does not lack one. -/
def finish (d : Draft) (fresh : MessageId) (payload : Option Payload) : Except Failure Message :=
  match (d.identified fresh).validate with
  | .ok () => .ok ⟨d.identified fresh, payload⟩
  | .error e => .error e.toFailure

variable {d : Draft} {fresh : MessageId} {payload : Option Payload}

theorem finish_eq_ok {m : Message} : d.finish fresh payload = .ok m ↔
    (d.identified fresh).validate = .ok () ∧ m = ⟨d.identified fresh, payload⟩ := by
  unfold finish
  cases (d.identified fresh).validate with
  | ok u => simp [eq_comm]
  | error e => simp

theorem finish_eq_error {f : Failure} : d.finish fresh payload = .error f ↔
    ∃ e, (d.identified fresh).validate = .error e ∧ f = .invalidArgument e.text := by
  unfold finish
  cases (d.identified fresh).validate with
  | ok u => simp
  | error e => simp [ValidationError.toFailure, eq_comm]

end Draft

end Switchboard
