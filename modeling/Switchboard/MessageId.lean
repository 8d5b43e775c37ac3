import Switchboard.Radix

/-!
# Message ids

Every message carries an id of 128 bits. Three layouts of such an id record
when it was made, and the version digit tells them apart. The creation time is
what validity and expiry are judged by; the order of ids is that of their bits,
most significant first.
-/

namespace Switchboard

/-- A message id: 128 bits, of which the leftmost four of the seventh octet are the version. -/
structure MessageId where
  bits : BitVec 128
  deriving DecidableEq, Repr

namespace MessageId

instance : LE MessageId := ⟨fun a b => a.bits.toNat ≤ b.bits.toNat⟩

instance : LT MessageId := ⟨fun a b => a.bits.toNat < b.bits.toNat⟩

instance (a b : MessageId) : Decidable (a ≤ b) :=
  inferInstanceAs (Decidable (a.bits.toNat ≤ b.bits.toNat))

instance (a b : MessageId) : Decidable (a < b) :=
  inferInstanceAs (Decidable (a.bits.toNat < b.bits.toNat))

/-- The version digit, which names the layout of the other bits. -/
def version (id : MessageId) : BitVec 4 := id.bits.extractLsb' 76 4

/-- Ticks of 100 nanoseconds between the start of the Gregorian calendar and that of 1970. -/
def gregorianOffset : Nat := 0x01B21DD213814000

/-- The tick count of a version 1 id: its low half comes first. -/
def ticksLowFirst (id : MessageId) : BitVec 60 :=
  id.bits.extractLsb' 64 12 ++ id.bits.extractLsb' 80 16 ++ id.bits.extractLsb' 96 32

/-- The tick count of a version 6 id: most significant bits come first. -/
def ticksHighFirst (id : MessageId) : BitVec 60 :=
  id.bits.extractLsb' 96 32 ++ id.bits.extractLsb' 80 16 ++ id.bits.extractLsb' 64 12

/-- Milliseconds since 1970 of a tick count; the subtraction is made modulo 2^64. -/
def millisOfTicks (ticks : BitVec 60) : Nat :=
  ((ticks.setWidth 64) - BitVec.ofNat 64 gregorianOffset).toNat / 10000

/-- Creation time in milliseconds since 1970, for the layouts that record one. -/
def millis? (id : MessageId) : Option Nat :=
  if id.version = 7#4 then some (id.bits.extractLsb' 80 48).toNat
  else if id.version = 1#4 then some (millisOfTicks id.ticksLowFirst)
  else if id.version = 6#4 then some (millisOfTicks id.ticksHighFirst)
  else none

/-- The id records a creation time later than the start of 1970. -/
def isValid (id : MessageId) : Bool :=
  match id.millis? with
  | some ms => 0 < ms
  | none => false

/-- The version 7 id of a creation time and a serial number. -/
def stamped (millis : BitVec 48) (serial : BitVec 74) : MessageId :=
  ⟨millis ++ 7#4 ++ serial.extractLsb' 62 12 ++ 2#2 ++ serial.extractLsb' 0 62⟩

/-- A source of ids: which ids it issues, and how many it has issued. -/
structure Source where
  issue : Nat → MessageId
  issued : Nat := 0

def Source.next (s : Source) : MessageId × Source :=
  (s.issue s.issued, { s with issued := s.issued + 1 })

/-! ## Text -/

/-- Digits in groups of 8, 4, 4, 4 and 12, joined by hyphens, in lower case. -/
def text (id : MessageId) : String :=
  let cs := (Radix.padded 16 32 id.bits.toNat).map Radix.Case.lower.digit
  String.ofList (cs.take 8 ++ '-' :: (cs.drop 8).take 4 ++ '-' :: (cs.drop 12).take 4 ++
    '-' :: (cs.drop 16).take 4 ++ '-' :: cs.drop 20)

def ofDigits? (cs : List Char) : Option MessageId :=
  if cs.length = 32 then (Radix.ofHex? cs).map fun n => ⟨BitVec.ofNat 128 n⟩ else none

def ofGroups? (cs : List Char) : Option MessageId :=
  if cs.length = 36 ∧ cs[8]? = some '-' ∧ cs[13]? = some '-' ∧ cs[18]? = some '-' ∧
      cs[23]? = some '-' then
    ofDigits? (cs.take 8 ++ (cs.drop 9).take 4 ++ (cs.drop 14).take 4 ++ (cs.drop 19).take 4 ++
      cs.drop 24)
  else none

/-- The accepted texts: bare digits, the five groups, the five groups in braces, and the five
groups behind `urn:uuid:` in any case. -/
def ofText? (s : String) : Option MessageId :=
  let cs := s.toList
  if cs.length = 32 then ofDigits? cs
  else if cs.length = 36 then ofGroups? cs
  else if cs.length = 38 ∧ cs.head? = some '\x7b' ∧ cs.getLast? = some '\x7d' then
    ofGroups? (cs.drop 1).dropLast
  else if (cs.take 9).map Char.toLower = "urn:uuid:".toList then ofGroups? (cs.drop 9)
  else none

end MessageId

end Switchboard
