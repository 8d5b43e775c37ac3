import Switchboard.Address
import Switchboard.MessageId
import Switchboard.Status

/-!
# Messages

A message is a record of attributes and an optional payload. The attributes say
what kind of message it is, where it comes from and goes to, and which request
it answers; the payload is bytes under a format tag that nothing on the way
looks into.
-/

namespace Switchboard

/-- The kind of a message, which decides the rules that its attributes obey. -/
inductive Kind
  /-- Decoded from a malformed message; no rules accept it. -/
  | unspecified
  | publish
  | request
  | response
  | notification
  deriving DecidableEq, Repr, Inhabited

namespace Kind

def name : Kind → String
  | unspecified => "UNSPECIFIED"
  | publish => "PUBLISH"
  | request => "REQUEST"
  | response => "RESPONSE"
  | notification => "NOTIFICATION"

def all : List Kind := [unspecified, publish, request, response, notification]

def ofName? (s : String) : Option Kind := all.find? (·.name == s)

end Kind

/-- Delivery priorities, lowest first. -/
inductive Priority
  /-- Decoded from a malformed message; no rules accept it. -/
  | unspecified
  | low
  | background
  | standard
  | streaming
  | interactive
  | realtime
  | networkControl
  deriving DecidableEq, Repr, Inhabited

namespace Priority

def name : Priority → String
  | unspecified => "unspecified"
  | low => "low"
  | background => "background"
  | standard => "standard"
  | streaming => "streaming"
  | interactive => "interactive"
  | realtime => "realtime"
  | networkControl => "network_control"

def all : List Priority :=
  [unspecified, low, background, standard, streaming, interactive, realtime, networkControl]

def ofName? (s : String) : Option Priority := all.find? (·.name == s)

def rank : Priority → Nat
  | unspecified => 0
  | low => 1
  | background => 2
  | standard => 3
  | streaming => 4
  | interactive => 5
  | realtime => 6
  | networkControl => 7

instance : LE Priority := ⟨fun p q => p.rank ≤ q.rank⟩

instance (p q : Priority) : Decidable (p ≤ q) := inferInstanceAs (Decidable (p.rank ≤ q.rank))

/-- The priority of calls and notifications that do not choose one. -/
def forCalls : Priority := interactive

end Priority

/-- The tag that says how the bytes of a payload are to be read. -/
inductive PayloadFormat
  | unspecified
  | json
  | raw
  | text
  deriving DecidableEq, Repr, Inhabited

namespace PayloadFormat

def name : PayloadFormat → String
  | unspecified => "unspecified"
  | json => "json"
  | raw => "raw"
  | text => "text"

def all : List PayloadFormat := [unspecified, json, raw, text]

def ofName? (s : String) : Option PayloadFormat := all.find? (·.name == s)

def contentType : PayloadFormat → String
  | unspecified => "application/octet-stream"
  | json => "application/json"
  | raw => "application/octet-stream"
  | text => "text/plain"

end PayloadFormat

/-! ## Payloads and messages -/

attribute [local instance (high)] ByteArray.instDecidableEq

/-- Bytes under a format tag. -/
structure Payload where
  data : ByteArray
  format : PayloadFormat
  deriving DecidableEq

namespace Payload

/-- No bytes, and no word on their format. -/
def empty : Payload := ⟨ByteArray.empty, .unspecified⟩

instance : Inhabited Payload := ⟨empty⟩

def ofText (s : String) : Payload := ⟨s.toUTF8, .text⟩

def isEmpty (p : Payload) : Bool := p.data.isEmpty

end Payload

/-- What a message says about itself. Which fields must be present depends on the kind. -/
structure Attributes where
  id : Option MessageId := none
  kind : Kind := .unspecified
  source : Option Address := none
  sink : Option Address := none
  priority : Priority := .unspecified
  /-- Time to live in milliseconds. -/
  ttl : Option UInt32 := none
  /-- Authorization token, carried along and never judged. -/
  token : Option String := none
  /-- The request that a response answers. -/
  requestId : Option MessageId := none
  /-- Outcome of the request as the peer saw it. -/
  commStatus : Option Code := none
  /-- The text that goes with `commStatus`. -/
  commMessage : Option String := none
  deriving DecidableEq, Repr, Inhabited

namespace Attributes

def isRequest (a : Attributes) : Bool := a.kind == .request

def isResponse (a : Attributes) : Bool := a.kind == .response

/-- A status that is not success is present. -/
def hasFailureStatus (a : Attributes) : Bool :=
  match a.commStatus with
  | some code => code != .ok
  | none => false

end Attributes

structure Message where
  attributes : Attributes
  payload : Option Payload := none
  deriving DecidableEq, Inhabited

namespace Message

def payloadOrEmpty (m : Message) : Payload := m.payload.getD Payload.empty

end Message

end Switchboard
