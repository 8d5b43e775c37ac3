import Switchboard.Radix

/-!
# JSON as it is written

A JSON text is first read into a tree that forgets only blanks. Numbers keep
their digits and strings keep their escapes, because what they may hold depends
on who asks: a text must be well-formed Unicode, a byte string need not be, and
a value that nobody asks for only has to be spelled correctly.
-/

namespace Switchboard.Json

inductive Piece
  /-- An octet that stands for itself. -/
  | octet (b : UInt8)
  /-- A code unit of UTF-16 that an escape stands for. -/
  | unit (u : UInt16)
  deriving DecidableEq, Repr

/-- A string literal between its quotes. -/
abbrev Literal := List Piece

/-- The code unit opens a pair that stands for one character. -/
def isLeading (u : UInt16) : Bool := 0xD800 ≤ u && u ≤ 0xDBFF

/-- The code unit closes a pair that stands for one character. -/
def isTrailing (u : UInt16) : Bool := 0xDC00 ≤ u && u ≤ 0xDFFF

def pairCode (hi lo : UInt16) : Nat :=
  0x10000 + (hi.toNat - 0xD800) * 0x400 + (lo.toNat - 0xDC00)

/-- UTF-8 of a code, extended to the codes of unpaired code units, which no character has. -/
def encodeCode (n : Nat) : List UInt8 :=
  if n < 0x80 then [UInt8.ofNat n]
  else if n < 0x800 then [UInt8.ofNat (0xC0 + n / 0x40), UInt8.ofNat (0x80 + n % 0x40)]
  else if n < 0x10000 then
    [UInt8.ofNat (0xE0 + n / 0x1000), UInt8.ofNat (0x80 + n / 0x40 % 0x40),
      UInt8.ofNat (0x80 + n % 0x40)]
  else
    [UInt8.ofNat (0xF0 + n / 0x40000), UInt8.ofNat (0x80 + n / 0x1000 % 0x40),
      UInt8.ofNat (0x80 + n / 0x40 % 0x40), UInt8.ofNat (0x80 + n % 0x40)]

namespace Literal

/-- The octets that a literal stands for. Paired code units make one character; an unpaired one
is encoded by itself, so a text with such a unit is not well-formed. -/
def octets : Literal → List UInt8
  | [] => []
  | .octet b :: rest => b :: octets rest
  | .unit hi :: .unit lo :: rest =>
    if isLeading hi && isTrailing lo then encodeCode (pairCode hi lo) ++ octets rest
    else encodeCode hi.toNat ++ octets (.unit lo :: rest)
  | .unit u :: rest => encodeCode u.toNat ++ octets rest

/-- No control character stands for itself in the literal. -/
def isPlain (l : Literal) : Bool :=
  l.all fun
    | .octet b => 0x20 ≤ b
    | .unit _ => true

def text? (l : Literal) : Option String :=
  if l.isPlain then String.fromUTF8? ⟨l.octets.toArray⟩ else none

/-- The literal as bytes; every literal is fit for that. -/
def bytes (l : Literal) : ByteArray := ⟨l.octets.toArray⟩

/-- The text with no escapes. -/
def ofText (s : String) : Literal := s.toUTF8.data.toList.map .octet

end Literal

/-- A number as it is written: sign, digits before and after the point, and exponent. -/
structure Numeral where
  negative : Bool
  whole : List Nat
  fraction : List Nat
  exponent : Option Int
  deriving DecidableEq, Repr

namespace Numeral

def ofInt (n : Int) : Numeral := ⟨n < 0, Radix.digits 10 n.natAbs, [], none⟩

/-- The integer of a numeral without point and exponent. Minus zero is no integer, since an
integer has no such sign. -/
def int? (n : Numeral) : Option Int :=
  if n.fraction.isEmpty && n.exponent.isNone then
    let m := Radix.value 10 n.whole
    if n.negative then (if m = 0 then none else some (-(m : Int))) else some m
  else none

end Numeral

/-- A JSON text without its blanks. Members keep their order and may repeat a key. -/
inductive Raw
  | null
  | bool (b : Bool)
  | number (n : Numeral)
  | string (l : Literal)
  | array (items : List Raw)
  | object (members : List (Literal × Raw))
  deriving Inhabited

mutual

/-- Every literal in the tree is plain, which is all that is asked of a value that nobody reads. -/
def Raw.isPlain : Raw → Bool
  | .string l => l.isPlain
  | .array items => Raw.allPlain items
  | .object members => Raw.membersPlain members
  | _ => true

def Raw.allPlain : List Raw → Bool
  | [] => true
  | r :: rest => r.isPlain && Raw.allPlain rest

def Raw.membersPlain : List (Literal × Raw) → Bool
  | [] => true
  | (k, r) :: rest => k.isPlain && r.isPlain && Raw.membersPlain rest

end

end Switchboard.Json
