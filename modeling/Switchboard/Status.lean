/-!
# Statuses

A status is a code from a fixed set and a text for people. Links report their
refusals with it, and an answer carries one inside its attributes.
-/

namespace Switchboard

/-- The codes that links, answers and errors share. -/
inductive Code
  | ok
  | invalidArgument
  | notFound
  | alreadyExists
  | deadlineExceeded
  | failedPrecondition
  | unavailable
  | internal
  | unknown
  | resourceExhausted
  | permissionDenied
  deriving DecidableEq, Repr, Inhabited

namespace Code

def name : Code → String
  | ok => "OK"
  | invalidArgument => "INVALID_ARGUMENT"
  | notFound => "NOT_FOUND"
  | alreadyExists => "ALREADY_EXISTS"
  | deadlineExceeded => "DEADLINE_EXCEEDED"
  | failedPrecondition => "FAILED_PRECONDITION"
  | unavailable => "UNAVAILABLE"
  | internal => "INTERNAL"
  | unknown => "UNKNOWN"
  | resourceExhausted => "RESOURCE_EXHAUSTED"
  | permissionDenied => "PERMISSION_DENIED"

def all : List Code :=
  [ok, invalidArgument, notFound, alreadyExists, deadlineExceeded, failedPrecondition,
    unavailable, internal, unknown, resourceExhausted, permissionDenied]

def ofName? (s : String) : Option Code :=
  all.find? (·.name == s)

end Code

/-- A code and a text for people. -/
structure Status where
  code : Code
  message : String
  deriving DecidableEq, Repr

namespace Status

def success : Status := ⟨.ok, ""⟩

def isOk (s : Status) : Bool := s.code == .ok

def text (s : Status) : String := s.code.name ++ ": " ++ s.message

end Status

end Switchboard
