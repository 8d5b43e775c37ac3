import Switchboard.Failure
import Switchboard.Message

/-!
# Validity and expiry

Every kind of message has a fixed list of rules, and a message that breaks some
of them is refused with all of the defects, in the order of the rules. Whether
a message has outlived its time to live is decided here too, since it hangs on
the attributes and the time alone.
-/

namespace Switchboard

inductive Defect
  | wrongKind (found expected : Kind)
  | missingId
  | undatedId (id : MessageId)
  | missingSource
  | unspecifiedPriority
  | publishWithSink
  | missingMethod
  | missingTtl
  | zeroTtl
  | missingReplyTo
  | missingRequestId
  | missingDestination
  | notificationWithRequestId
  deriving DecidableEq, Repr

def Defect.text : Defect → String
  | wrongKind found expected =>
    "Wrong message type [" ++ found.name ++ "], expected [" ++ expected.name ++ "]"
  | missingId => "Missing id"
  | undatedId id => "Invalid id [" ++ id.text ++ "]: no timestamp"
  | missingSource => "Missing source"
  | unspecifiedPriority => "Invalid priority"
  | publishWithSink => "Publish message must not have a sink"
  | missingMethod => "Missing sink (method address)"
  | missingTtl => "Missing TTL"
  | zeroTtl => "TTL must be greater than zero"
  | missingReplyTo => "Missing sink (reply-to address)"
  | missingRequestId => "Missing request id"
  | missingDestination => "Missing sink"
  | notificationWithRequestId => "Notification must not have a request id"

/-- Why attributes were refused. -/
inductive ValidationError
  /-- No rules exist for messages of unspecified kind. -/
  | unsupportedKind
  /-- The broken rules, in the order of the rules. -/
  | defects (found : List Defect)
  deriving DecidableEq, Repr

def ValidationError.text : ValidationError → String
  | unsupportedKind => "Unsupported message type: UNSPECIFIED"
  | defects found => String.intercalate ", " (found.map Defect.text)

/-- Refused attributes are an invalid argument of the operation that was to send them. -/
def ValidationError.toFailure (e : ValidationError) : Failure :=
  .invalidArgument e.text

/-! ## Rules -/

/-- The kinds that have rules. -/
inductive RuleSet
  | publish
  | request
  | response
  | notification
  deriving DecidableEq, Repr

namespace RuleSet

def kind : RuleSet → Kind
  | publish => .publish
  | request => .request
  | response => .response
  | notification => .notification

/-- The rules of a kind; messages of unspecified kind have none. -/
def ofKind? : Kind → Option RuleSet
  | .unspecified => none
  | .publish => some publish
  | .request => some request
  | .response => some response
  | .notification => some notification

theorem ofKind?_kind (r : RuleSet) : ofKind? r.kind = some r := by cases r <;> rfl

/-- Only the unspecified kind has no rules. -/
theorem exists_kind {k : Kind} (specified : k ≠ .unspecified) : ∃ r : RuleSet, k = r.kind := by
  cases k with
  | unspecified => exact absurd rfl specified
  | publish => exact ⟨publish, rfl⟩
  | request => exact ⟨request, rfl⟩
  | response => exact ⟨response, rfl⟩
  | notification => exact ⟨notification, rfl⟩

end RuleSet

namespace Attributes

/-- One defect when the condition holds, none otherwise. -/
def flag (broken : Bool) (defect : Defect) : List Defect :=
  if broken then [defect] else []

/-- Defects of the rules that all kinds share. -/
def commonDefects (a : Attributes) : List Defect :=
  (match a.id with
    | none => [.missingId]
    | some id => flag (!id.isValid) (.undatedId id)) ++
  flag a.source.isNone .missingSource ++
  flag (a.priority == .unspecified) .unspecifiedPriority

def ttlDefects (a : Attributes) : List Defect :=
  match a.ttl with
  | none => [.missingTtl]
  | some ttl => flag (ttl == 0) .zeroTtl

def kindDefects (a : Attributes) : RuleSet → List Defect
  | .publish => flag a.sink.isSome .publishWithSink
  | .request => flag a.sink.isNone .missingMethod ++ a.ttlDefects
  | .response =>
    flag a.sink.isNone .missingReplyTo ++ flag a.requestId.isNone .missingRequestId
  | .notification =>
    flag a.sink.isNone .missingDestination ++ flag a.requestId.isSome .notificationWithRequestId

def defects (a : Attributes) (rules : RuleSet) : List Defect :=
  flag (a.kind != rules.kind) (.wrongKind a.kind rules.kind) ++ a.commonDefects ++
    a.kindDefects rules

def validateAs (a : Attributes) (rules : RuleSet) : Except ValidationError Unit :=
  match a.defects rules with
  | [] => .ok ()
  | found => .error (.defects found)

/-- The attributes obey the rules of their own kind, or all of their defects. -/
def validate (a : Attributes) : Except ValidationError Unit :=
  match RuleSet.ofKind? a.kind with
  | none => .error .unsupportedKind
  | some rules => a.validateAs rules

/-- The rules of the attributes' own kind accept them. -/
def isValid (a : Attributes) : Bool :=
  match a.validate with
  | .ok () => true
  | .error _ => false

section Valid

variable {a : Attributes} {rules : RuleSet}

theorem isValid_iff : a.isValid = true ↔ a.validate = .ok () := by
  unfold isValid
  cases a.validate <;> simp

@[simp] theorem flag_eq_nil {broken : Bool} {defect : Defect} :
    flag broken defect = [] ↔ broken = false := by
  cases broken <;> simp [flag]

theorem commonDefects_eq_nil : a.commonDefects = [] ↔
    a.id.any MessageId.isValid = true ∧ a.source.isSome = true ∧ a.priority ≠ .unspecified := by
  cases id : a.id <;> simp [commonDefects, id]

theorem validate_of_kind (own : a.kind = rules.kind) : a.validate = a.validateAs rules := by
  rw [validate, own, RuleSet.ofKind?_kind]

/-- Attributes of a kind are valid if neither the rules that all kinds share nor those of the kind
find a defect. -/
theorem isValid_iff_of_kind (own : a.kind = rules.kind) :
    a.isValid = true ↔ a.commonDefects = [] ∧ a.kindDefects rules = [] := by
  have defects : a.defects rules = a.commonDefects ++ a.kindDefects rules := by
    simp [defects, own, flag]
  rw [isValid_iff, validate_of_kind own, validateAs, defects, ← List.append_eq_nil_iff]
  cases a.commonDefects ++ a.kindDefects rules <;> simp

theorem kind_ne_unspecified (valid : a.isValid = true) : a.kind ≠ .unspecified := by
  intro kind
  simp [isValid, validate, RuleSet.ofKind?, kind] at valid

/-- Valid attributes are of a kind that has rules, and these find no defect. -/
theorem exists_rules_of_isValid (valid : a.isValid = true) :
    ∃ rules : RuleSet, a.kind = rules.kind ∧ a.commonDefects = [] ∧ a.kindDefects rules = [] := by
  obtain ⟨rules, own⟩ := RuleSet.exists_kind (kind_ne_unspecified valid)
  exact ⟨rules, own, (isValid_iff_of_kind own).mp valid⟩

end Valid

/-- At `now` (milliseconds since 1970) the message is older than its time to live. A message
without a time to live, with none left to begin with, or without a creation time never expires,
and neither does one whose creation time lies ahead of the clock. -/
def isExpired (a : Attributes) (now : Nat) : Bool :=
  match a.ttl, a.id.bind MessageId.millis? with
  | some ttl, some created => 0 < ttl.toNat && ttl.toNat < now - created
  | _, _ => false

end Attributes

end Switchboard
