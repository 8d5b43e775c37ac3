import Switchboard.Json.Shape
import Switchboard.Message

/-!
# The JSON form of messages

How messages and their parts are written as JSON, field by field in the order
of the records, and how they are read back. Absent fields are written as null
and may be left out when read, payload bytes are written as numbers.
-/

namespace Switchboard

open Json

/-- A field that may be absent, as null when it is. -/
def Json.Value.ofOption (write : α → Value) : Option α → Value
  | none => .null
  | some a => write a

def Code.toJson (c : Code) : Value := .string c.name

def Kind.toJson (k : Kind) : Value := .string k.name

def Priority.toJson (p : Priority) : Value := .string p.name

def PayloadFormat.toJson (f : PayloadFormat) : Value := .string f.name

def MessageId.toJson (id : MessageId) : Value := .string id.text

def Status.toJson (s : Status) : Value :=
  .object [("code", s.code.toJson), ("message", .string s.message)]

def Address.toJson (a : Address) : Value :=
  .object [
    ("authority", .string a.authority),
    ("entity_id", .integer a.entityId.toNat),
    ("entity_version_major", .integer a.majorVersion.toNat),
    ("resource_id", .integer a.resourceId.toNat)]

def Payload.toJson (p : Payload) : Value :=
  .object [
    ("data", .array (p.data.data.toList.map fun b => .integer b.toNat)),
    ("format", p.format.toJson)]

def Attributes.toJson (a : Attributes) : Value :=
  .object [
    ("id", .ofOption MessageId.toJson a.id),
    ("message_type", a.kind.toJson),
    ("source", .ofOption Address.toJson a.source),
    ("sink", .ofOption Address.toJson a.sink),
    ("priority", a.priority.toJson),
    ("ttl", .ofOption (fun t => .integer t.toNat) a.ttl),
    ("token", .ofOption .string a.token),
    ("request_id", .ofOption MessageId.toJson a.requestId),
    ("comm_status", .ofOption Code.toJson a.commStatus),
    ("comm_message", .ofOption .string a.commMessage)]

def Message.toJson (m : Message) : Value :=
  .object [
    ("attributes", m.attributes.toJson),
    ("payload", .ofOption Payload.toJson m.payload)]

/-! ## Reading -/

def Code.shape : Shape Code := .enumeration Code.ofName?

def Kind.shape : Shape Kind := .enumeration Kind.ofName?

def Priority.shape : Shape Priority := .enumeration Priority.ofName?

def PayloadFormat.shape : Shape PayloadFormat := .enumeration PayloadFormat.ofName?

def MessageId.shape : Shape MessageId := .named MessageId.ofText?

def Status.shape : Shape Status := fun r => do
  match ← Shape.fields ["code", "message"] r with
  | [code, message] => some ⟨← Shape.required Code.shape code, ← Shape.required .text message⟩
  | _ => none

def Address.shape : Shape Address := fun r => do
  match ← Shape.fields ["authority", "entity_id", "entity_version_major", "resource_id"] r with
  | [authority, entity, version, resource] =>
    some ⟨← Shape.required .text authority, ← Shape.required .word32 entity,
      ← Shape.required .octet version, ← Shape.required .word16 resource⟩
  | _ => none

def Payload.shape : Shape Payload := fun r => do
  match ← Shape.fields ["data", "format"] r with
  | [data, format] =>
    some ⟨← Shape.required .bytes data, ← Shape.required PayloadFormat.shape format⟩
  | _ => none

def Attributes.shape : Shape Attributes := fun r => do
  match ← Shape.fields ["id", "message_type", "source", "sink", "priority", "ttl", "token",
      "request_id", "comm_status", "comm_message"] r with
  | [id, kind, source, sink, priority, ttl, token, requestId, commStatus, commMessage] =>
    some {
      id := ← Shape.optional MessageId.shape id
      kind := ← Shape.required Kind.shape kind
      source := ← Shape.optional Address.shape source
      sink := ← Shape.optional Address.shape sink
      priority := ← Shape.required Priority.shape priority
      ttl := ← Shape.optional .word32 ttl
      token := ← Shape.optional .text token
      requestId := ← Shape.optional MessageId.shape requestId
      commStatus := ← Shape.optional Code.shape commStatus
      commMessage := ← Shape.optional .text commMessage }
  | _ => none

def Message.shape : Shape Message := fun r => do
  match ← Shape.fields ["attributes", "payload"] r with
  | [attributes, payload] =>
    some ⟨← Shape.required Attributes.shape attributes, ← Shape.optional Payload.shape payload⟩
  | _ => none

namespace Payload

def ofJson (v : Value) : Payload := ⟨v.bytes, .json⟩

/-- The value of a shape that the payload holds; only payloads tagged as JSON are read. -/
def json? (shape : Shape α) (p : Payload) : Option α :=
  if p.format = .json then (shape.ofBytes p.data).toOption else none

end Payload

end Switchboard
