import Switchboard.Draft

/-!
# Options

What a caller may choose for one call, and a publisher for one message.
-/

namespace Switchboard

structure CallOptions where
  /-- How long the caller waits; the request's time to live follows from it. -/
  timeout : Duration
  priority : Priority
  token : Option String
  deriving DecidableEq, Repr

namespace CallOptions

def defaultTimeout : Duration := .ofMillis 10000

/-- The choices of a caller that makes none. -/
def standard : CallOptions := ⟨defaultTimeout, .forCalls, none⟩

/-- The timeout as a time to live: whole milliseconds, at most what the attribute can hold. -/
def ttlMillis (o : CallOptions) : UInt32 :=
  UInt32.ofNat (min o.timeout.floorMillis 0xFFFFFFFF)

theorem toNat_ttlMillis (o : CallOptions) :
    o.ttlMillis.toNat = min o.timeout.floorMillis 0xFFFFFFFF := by
  simp only [ttlMillis, UInt32.toNat_ofNat']
  omega

end CallOptions

/-- Choices for one publication or notification. -/
structure SendOptions where
  priority : Option Priority := none
  ttl : Option UInt32 := none
  token : Option String := none
  deriving DecidableEq, Repr, Inhabited

def SendOptions.apply (o : SendOptions) (d : Draft) : Draft :=
  ((d.set? .priority o.priority).set? .ttl o.ttl).set? .token o.token

end Switchboard
