import Switchboard.Radix

/-!
# Addresses

An address names a software entity, one of its methods or one of its topics.
Listeners use the same shape as a filter: a component that holds its wildcard
value admits every value of a candidate's component.
-/

namespace Switchboard

/-- The address of an entity (resource zero), of one of its methods or of one of its topics. -/
structure Address where
  authority : String
  entityId : UInt32
  majorVersion : UInt8
  resourceId : UInt16
  deriving DecidableEq, Repr, Inhabited

namespace Address

def anyAuthority : String := "*"

/-- The entity id that admits every entity id; no entity can use it as its own. -/
def anyEntityId : UInt32 := 0xFFFF

def anyMajorVersion : UInt8 := 0xFF

def anyResource : UInt16 := 0xFFFF

def any : Address := ⟨anyAuthority, anyEntityId, anyMajorVersion, anyResource⟩

def atResource (a : Address) (resource : UInt16) : Address :=
  { a with resourceId := resource }

/-- The entity itself, which is where answers are sent to. -/
def entity (a : Address) : Address := a.atResource 0

/-- Some component holds its wildcard value, so the address is a filter and names nothing. -/
def hasWildcard (a : Address) : Bool :=
  a.authority == anyAuthority || a.entityId == anyEntityId ||
    a.majorVersion == anyMajorVersion || a.resourceId == anyResource

/-- A concrete address in the lower half of the resources, which are the methods. -/
def isMethod (a : Address) : Bool :=
  !a.hasWildcard && (1 ≤ a.resourceId && a.resourceId ≤ 0x7FFF)

/-- A concrete address in the upper half of the resources, which are the topics. -/
def isTopic (a : Address) : Bool :=
  !a.hasWildcard && 0x8000 ≤ a.resourceId

/-- Equal but for the resource. -/
def sameEntity (a b : Address) : Bool :=
  a.authority == b.authority && a.entityId == b.entityId && a.majorVersion == b.majorVersion

/-! ## Filters -/

/-- The filter admits the candidate: each component of the filter is a wildcard or equal. -/
def admits (filter candidate : Address) : Bool :=
  (filter.authority == anyAuthority || filter.authority == candidate.authority) &&
  (filter.entityId == anyEntityId || filter.entityId == candidate.entityId) &&
  (filter.majorVersion == anyMajorVersion || filter.majorVersion == candidate.majorVersion) &&
  (filter.resourceId == anyResource || filter.resourceId == candidate.resourceId)

theorem any_admits (a : Address) : any.admits a = true := by
  simp [admits, any]

theorem admits_self (a : Address) : a.admits a = true := by
  simp [admits]

/-- The address as it stands in messages to people: upper-case numbers in base sixteen, without
leading zeros, behind the authority. -/
def text (a : Address) : String :=
  "//" ++ a.authority ++ "/" ++ Radix.hex .upper a.entityId.toNat ++ "/" ++
    Radix.hex .upper a.majorVersion.toNat ++ "/" ++ Radix.hex .upper a.resourceId.toNat

end Address

end Switchboard
