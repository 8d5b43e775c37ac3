import Switchboard.Json.Reader
import Switchboard.Json.Value

/-!
# Reading what is expected

Readers that ask a tree for a value of a known shape. Records may come as
objects, where unknown members are passed over, or as arrays of exactly their
fields; a name of an enumeration may come as a text or as the only key of an
object that holds null.
-/

namespace Switchboard.Json

/-- Why there is no value. -/
inductive Problem
  /-- The bytes are no JSON text. -/
  | malformed
  /-- The JSON text is not of the expected shape. -/
  | mismatched
  /-- The value has no JSON form. -/
  | unencodable
  deriving DecidableEq, Repr

def Problem.text : Problem → String
  | malformed => "the bytes are not a JSON text"
  | mismatched => "the JSON text is not of the expected shape"
  | unencodable => "the value has no JSON form"

/-- A reader of one shape. -/
abbrev Shape (α : Type) := Raw → Option α

namespace Shape

def value : Shape Value := Raw.value?

def integer (low high : Int) : Shape Int
  | .number n => do
    let i ← n.int?
    if low ≤ i ∧ i ≤ high then some i else none
  | _ => none

def natural (bound : Nat) : Shape Nat := fun r =>
  (integer 0 (bound - 1) r).map Int.toNat

def int32 : Shape Int := integer (-(2 ^ 31)) (2 ^ 31 - 1)

def octet : Shape UInt8 := fun r => (natural (2 ^ 8) r).map UInt8.ofNat

def word16 : Shape UInt16 := fun r => (natural (2 ^ 16) r).map UInt16.ofNat

def word32 : Shape UInt32 := fun r => (natural (2 ^ 32) r).map UInt32.ofNat

def word64 : Shape UInt64 := fun r => (natural (2 ^ 64) r).map UInt64.ofNat

def boolean : Shape Bool
  | .bool b => some b
  | _ => none

def text : Shape String
  | .string l => l.text?
  | _ => none

def named (ofName? : String → Option α) : Shape α := fun r => do ofName? (← text r)

/-- One of an enumeration's names: as a text, or as the only key of an object that holds null. -/
def enumeration (ofName? : String → Option α) : Shape α
  | .string l => do ofName? (← l.text?)
  | .object [(k, .null)] => do ofName? (← k.text?)
  | _ => none

def nullable (shape : Shape α) : Shape (Option α)
  | .null => some none
  | r => (shape r).map some

def list (shape : Shape α) : Shape (List α)
  | .array items => items.mapM shape
  | _ => none

/-- Bytes: an array of octets, or a string, which stands for its own bytes. -/
def bytes : Shape ByteArray
  | .array items => (items.mapM octet).map fun bs => ⟨bs.toArray⟩
  | .string l => some l.bytes
  | _ => none

/-! ## Records -/

/-- The value of a field among the members of an object: absent, or present exactly once. -/
def field? (name : String) : List (String × Raw) → Option (Option Raw)
  | [] => some none
  | (k, r) :: rest =>
    if k = name then
      if rest.any (·.1 == name) then none else some (some r)
    else field? name rest

/-- Members under readable keys; a member that is no field only has to be spelled correctly. -/
def members? (names : List String) : List (Literal × Raw) → Option (List (String × Raw))
  | [] => some []
  | (k, r) :: rest => do
    let key ← k.text?
    let others ← members? names rest
    if names.contains key then some ((key, r) :: others)
    else if r.isPlain then some others
    else none

/-- The fields of a record, in the order of their names: from an object, where a field may be
absent but not repeated, or from an array of exactly the fields. -/
def fields (names : List String) : Shape (List (Option Raw))
  | .object members => do
    let members ← members? names members
    names.mapM fun name => field? name members
  | .array items => if items.length = names.length then some (items.map some) else none
  | _ => none

def required (shape : Shape α) : Option Raw → Option α
  | some r => shape r
  | none => none

/-- A field that may be absent or null. -/
def optional (shape : Shape α) : Option Raw → Option (Option α)
  | some r => nullable shape r
  | none => some none

def ofBytes (shape : Shape α) (bytes : ByteArray) : Except Problem α :=
  match Raw.ofBytes? bytes with
  | none => .error .malformed
  | some r =>
    match shape r with
    | none => .error .mismatched
    | some a => .ok a

def ofText (shape : Shape α) (s : String) : Except Problem α := shape.ofBytes s.toUTF8

end Shape

end Switchboard.Json
