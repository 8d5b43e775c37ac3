import Switchboard.Handler

/-!
# Small services

Handlers that are ready for use: some only pass payloads around or fail, others
are typed functions behind a JSON form.
-/

namespace Switchboard.Services

open Json

def echo (m : Message) : Ending := .returned m.payload

def silent (_ : Message) : Ending := .returned none

def constant (p : Payload) (_ : Message) : Ending := .returned (some p)

def failing (f : HandlerFailure) (_ : Message) : Ending := .failed f

def panicking (reason : Option String) (_ : Message) : Ending := .panicked reason

structure Summands where
  a : Int
  b : Int
  deriving DecidableEq, Repr

def Summands.shape : Shape Summands := fun r => do
  match ← Shape.fields ["a", "b"] r with
  | [a, b] => some ⟨← Shape.required .int32 a, ← Shape.required .int32 b⟩
  | _ => none

def Summands.toJson (s : Summands) : Value :=
  .object [("a", .integer s.a), ("b", .integer s.b)]

structure Sum where
  sum : Int
  deriving DecidableEq, Repr

def Sum.shape : Shape Sum := fun r => do
  match ← Shape.fields ["sum"] r with
  | [sum] => some ⟨← Shape.required .int32 sum⟩
  | _ => none

def Sum.toJson (s : Sum) : Value := .object [("sum", .integer s.sum)]

/-- The sum, unless it needs more than 32 bits. -/
def addition (s : Summands) : Except HandlerFailure Sum :=
  let sum := s.a + s.b
  if -(2 ^ 31) ≤ sum ∧ sum < 2 ^ 31 then .ok ⟨sum⟩
  else .error (.status ⟨.resourceExhausted, "overflow"⟩)

def adding : Message → Ending :=
  Ending.ofFunction Summands.shape (fun s : Sum => .ok s.toJson) addition

def reflecting : Message → Ending :=
  Ending.ofFunction Shape.value .ok .ok

/-- Takes any JSON value and fails. -/
def failingOnJson (f : HandlerFailure) : Message → Ending :=
  Ending.ofFunction Shape.value .ok fun _ => .error f

/-- Takes any JSON value and returns one that has no JSON form. -/
def unencodable : Message → Ending :=
  Ending.ofFunction Shape.value (fun () => .error .unencodable) fun _ => .ok ()

end Switchboard.Services
