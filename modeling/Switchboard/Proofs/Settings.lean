import Switchboard.Draft
import Switchboard.Proofs.Defects

/-! # What becomes of a draft

Settings of a draft replace each other kind by kind, so what a sequence of them makes of
the draft can be read off the last one of each kind: `Draft.settled` does so without
going through the sequence. The finished message has just these attributes, and the id
that it is given where none was set is the only thing that finishing adds. Main statement:
`last_settings_count`.
-/

namespace Switchboard

namespace Draft

namespace Setting

inductive Kind
  | sink
  | priority
  | ttl
  | token
  | id
  | commStatus
  deriving DecidableEq, Repr

def kind : Setting → Kind
  | .sink _ => .sink
  | .priority _ => .priority
  | .ttl _ => .ttl
  | .token _ => .token
  | .id _ => .id
  | .commStatus _ _ => .commStatus

def sink? : Setting → Option Address
  | .sink a => some a
  | _ => none

def priority? : Setting → Option Priority
  | .priority p => some p
  | _ => none

def ttl? : Setting → Option UInt32
  | .ttl n => some n
  | _ => none

def token? : Setting → Option String
  | .token text => some text
  | _ => none

def id? : Setting → Option MessageId
  | .id own => some own
  | _ => none

/-- The code and the text of an outcome are set together. -/
def commStatus? : Setting → Option (Code × String)
  | .commStatus code text => some (code, text)
  | _ => none

/-- What the last setting sets that sets something of the kind. -/
def last? (value? : Setting → Option α) (settings : List Setting) : Option α :=
  (settings.filterMap value?).getLast?

variable {value? : Setting → Option α} {s s' : Setting} {settings : List Setting}

@[simp] theorem last?_nil : last? value? [] = none := rfl

theorem last?_cons : last? value? (s :: settings) = (last? value? settings).or (value? s) := by
  cases value : value? s with
  | none => simp [last?, value]
  | some a => simp [last?, value, List.getLast?_cons, Option.or_some]

end Setting

open Setting

/-- The attributes of a draft, each one as the last setting of its kind has it. -/
def settled (d : Draft) (settings : List Setting) : Attributes :=
  { d.attributes with
    sink := (last? sink? settings).or d.attributes.sink
    priority := (last? priority? settings).getD d.attributes.priority
    ttl := (last? ttl? settings).or d.attributes.ttl
    token := (last? token? settings).or d.attributes.token
    id := (last? id? settings).or d.attributes.id
    commStatus := ((last? commStatus? settings).map (·.1)).or d.attributes.commStatus
    commMessage :=
      match last? commStatus? settings with
      | some (_, message) => if message.isEmpty then none else some message
      | none => d.attributes.commMessage }

variable {d : Draft} {s s' : Setting} {settings : List Setting}

/-- The first setting of a sequence counts where no later one is of its kind. -/
theorem settled_cons : d.settled (s :: settings) = (d.set s).settled settings := by
  cases s with
  | commStatus code text =>
    -- an outcome without a text clears the text of an earlier one, so two attributes are at stake
    cases later : last? commStatus? settings <;>
      simp [settled, set, last?_cons, sink?, priority?, ttl?, token?, id?, commStatus?, later]
  | _ => simp [settled, set, last?_cons, sink?, priority?, ttl?, token?, id?, commStatus?]

theorem setAll_eq_settled (d : Draft) (settings : List Setting) :
    (d.setAll settings).attributes = d.settled settings := by
  induction settings generalizing d with
  | nil => rfl
  | cons s settings ih => exact (ih (d.set s)).trans settled_cons.symm

/-- Settings of different kinds can change places. -/
theorem set_comm (d : Draft) (apart : s.kind ≠ s'.kind) :
    (d.set s).set s' = (d.set s').set s := by
  cases s <;> cases s' <;> simp_all [kind, set]

theorem setAll_swap (d : Draft) (before after : List Setting) (apart : s.kind ≠ s'.kind) :
    d.setAll (before ++ s :: s' :: after) = d.setAll (before ++ s' :: s :: after) := by
  simp only [setAll, List.foldl_append, List.foldl_cons, set_comm _ apart]

/-- The attributes of a draft depend on what it started from and, kind by kind, on the last
setting; settings of different kinds can change places. Finishing gives a message with these
attributes if they are accepted with the fresh id in the place of a missing one, and else says
what was found. A fresh id that has a time is never found fault with. -/
theorem last_settings_count (d : Draft) (settings : List Setting) (payload : Option Payload)
    {fresh : MessageId} (dated : fresh.isValid = true) :
    (d.setAll settings).attributes = d.settled settings ∧
    (∀ before after s s', Setting.kind s ≠ Setting.kind s' →
      d.setAll (before ++ s :: s' :: after) = d.setAll (before ++ s' :: s :: after)) ∧
    let a := { d.settled settings with id := some ((d.settled settings).id.getD fresh) }
    (∀ m, (d.setAll settings).finish fresh payload = .ok m ↔
      a.validate = .ok () ∧ m = ⟨a, payload⟩) ∧
    (∀ f, (d.setAll settings).finish fresh payload = .error f ↔
      ∃ e, a.validate = .error e ∧ f = .invalidArgument e.text) ∧
    a.complaints = (d.settled settings).complaints.filter (· != "Missing id") := by
  have attributes := setAll_eq_settled d settings
  refine ⟨attributes, fun before after s s' apart => setAll_swap d before after apart, ?_⟩
  rw [← attributes]
  exact ⟨fun m => finish_eq_ok, fun f => finish_eq_error, Attributes.complaints_identified dated⟩

/-- A later outcome without a text takes the text of an earlier one away, and a later time to live
mends an earlier one. -/
theorem last_outcome_counts :
    let fresh := MessageId.stamped 1 0
    let settings := [Setting.ttl 0, .commStatus .internal "boom", .token "a", .ttl 5,
      .commStatus .ok "", .token "b"]
    let d := request ⟨"client", 1, 1, 0⟩ ⟨"server", 2, 1, 7⟩ 1000
    fresh.isValid = true ∧ ∃ m, (d.setAll settings).finish fresh none = .ok m ∧
      m.attributes.ttl = some 5 ∧ m.attributes.token = some "b" ∧
      m.attributes.commStatus = some .ok ∧ m.attributes.commMessage = none ∧
      m.attributes.id = some fresh := by
  intro fresh settings d
  have dated : fresh.isValid = true := by decide
  obtain ⟨-, -, accepted, -⟩ := last_settings_count d settings none dated
  have valid := (accepted _).mpr ⟨Attributes.isValid_iff.mp (by decide +kernel), rfl⟩
  exact ⟨dated, _, valid, rfl, rfl, rfl, rfl, rfl⟩

end Draft

end Switchboard
