import Switchboard.Duration
import Switchboard.Status

/-!
# Failures

What can go wrong with an operation or a call (`Failure`) and inside a request
handler (`HandlerFailure`). Both turn into a status: that is how a failure of a
handler travels back to its caller.
-/

namespace Switchboard

/-- Why an operation or a call did not succeed. -/
inductive Failure
  /-- The arguments break a rule; nothing was sent. -/
  | invalidArgument (detail : String)
  /-- No matching registration exists. -/
  | notFound (detail : String)
  /-- A registration for the same key is already present. -/
  | alreadyExists (detail : String)
  /-- The link refused the message. -/
  | sendFailed (status : Status)
  /-- No answer came within the call's timeout. -/
  | deadlineExceeded (timeout : Duration)
  /-- The peer answered with a status that is not success. -/
  | remote (status : Status)
  /-- The link refused to register or unregister a listener. -/
  | transport (status : Status)
  /-- The engine is closed, or went away before the call ended. -/
  | unavailable (detail : String)
  /-- A value has no JSON form, or a text is not the JSON form of such a value. -/
  | serialization (detail : String)
  deriving DecidableEq, Repr

namespace Failure

/-- The code of the failure; a wrapped status keeps its own. -/
def code : Failure → Code
  | invalidArgument _ => .invalidArgument
  | notFound _ => .notFound
  | alreadyExists _ => .alreadyExists
  | sendFailed s => s.code
  | deadlineExceeded _ => .deadlineExceeded
  | remote s => s.code
  | transport s => s.code
  | unavailable _ => .unavailable
  | serialization _ => .invalidArgument

def text : Failure → String
  | invalidArgument d => "invalid argument: " ++ d
  | notFound d => "not found: " ++ d
  | alreadyExists d => "already exists: " ++ d
  | sendFailed s => "send failed: " ++ s.text
  | deadlineExceeded t => "deadline exceeded: no response within " ++ t.text
  | remote s => "remote error: " ++ s.text
  | transport s => "transport error: " ++ s.text
  | unavailable d => "unavailable: " ++ d
  | serialization d => "serialization error: " ++ d

/-- The failure as a status: a wrapped status as it is, else the code with the whole text. -/
def toStatus : Failure → Status
  | sendFailed s => s
  | remote s => s
  | transport s => s
  | e => ⟨e.code, e.text⟩

end Failure

/-- Why a request handler failed. -/
inductive HandlerFailure
  /-- The caller is to see this status. -/
  | status (s : Status)
  /-- Any other failure, by its description. -/
  | other (description : String)
  deriving DecidableEq, Repr

namespace HandlerFailure

/-- The status that the caller is sent: a failure without a code of its own is internal. -/
def toStatus : HandlerFailure → Status
  | status s => s
  | other d => ⟨.internal, d⟩

def text : HandlerFailure → String
  | status s => s.text
  | other d => d

/-- A failure of a call made inside a handler is relayed as its status. -/
def ofFailure (e : Failure) : HandlerFailure := status e.toStatus

/-- A text that does not decode inside a handler is the caller's fault. -/
def ofProblem (detail : String) : HandlerFailure := status ⟨.invalidArgument, detail⟩

end HandlerFailure

end Switchboard
