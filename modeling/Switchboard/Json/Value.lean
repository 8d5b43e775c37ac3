import Switchboard.Json.Double

/-!
# JSON values

A value is what a JSON text says once its spelling is forgotten. Reading a value
from a tree fixes what the grammar leaves open: the last of several members with
one key counts, members are kept in the order of their keys, and nesting is
limited. Writing is compact and escapes only what must be escaped.
-/

namespace Switchboard.Json

/-- A JSON value. Members of a value that was read are in the order of their keys; members of a
record that is to be written are in the order of its fields. -/
inductive Value
  | null
  | bool (b : Bool)
  | integer (n : Int)
  /-- A number that is no 64-bit integer, as the bits of a double. -/
  | double (bits : UInt64)
  | string (s : String)
  | array (items : List Value)
  | object (members : List (String × Value))
  deriving Inhabited

/-- The members with one more, which replaces an earlier one of its key. -/
def putMember (key : String) (value : Value) : List (String × Value) → List (String × Value)
  | [] => [(key, value)]
  | (k, v) :: rest =>
    if key < k then (key, value) :: (k, v) :: rest
    else if key = k then (key, value) :: rest
    else (k, v) :: putMember key value rest

/-- Integers of 64 bits, with or without a sign. -/
def isWordSized (n : Int) : Bool := -(2 ^ 63) ≤ n && n < 2 ^ 64

/-- The value of a number: an integer of 64 bits, or else a double. -/
def Numeral.value? (n : Numeral) : Option Value :=
  match n.int? with
  | some i => if isWordSized i then some (.integer i) else (Double.ofNumeral? n).map .double
  | none => (Double.ofNumeral? n).map .double

/-- How many arrays and objects may be nested in one another. -/
def nestingLimit : Nat := 127

mutual

/-- The value of a tree, unless it nests deeper than `room`, holds a text that is not well-formed
or a number that exceeds every double. -/
def Raw.valueWithin? : (room : Nat) → Raw → Option Value
  | _, .null => some .null
  | _, .bool b => some (.bool b)
  | _, .number n => n.value?
  | _, .string l => l.text?.map .string
  | 0, .array _ => none
  | room + 1, .array items => (Raw.valuesWithin? room items).map .array
  | 0, .object _ => none
  | room + 1, .object members => (Raw.membersWithin? room [] members).map .object

def Raw.valuesWithin? : (room : Nat) → List Raw → Option (List Value)
  | _, [] => some []
  | room, r :: rest => do
    let v ← r.valueWithin? room
    let vs ← Raw.valuesWithin? room rest
    some (v :: vs)

def Raw.membersWithin? :
    (room : Nat) → List (String × Value) → List (Literal × Raw) → Option (List (String × Value))
  | _, seen, [] => some seen
  | room, seen, (k, r) :: rest => do
    let key ← k.text?
    let v ← r.valueWithin? room
    Raw.membersWithin? room (putMember key v seen) rest

end

def Raw.value? (r : Raw) : Option Value := r.valueWithin? nestingLimit

/-! ## Writing -/

/-- A character inside quotes: quotes, backslashes and control characters are escaped. -/
def escapeChar (c : Char) : List Char :=
  if c = '"' then ['\\', '"']
  else if c = '\\' then ['\\', '\\']
  else if 0x20 ≤ c.toNat then [c]
  else if c.toNat = 0x08 then ['\\', 'b']
  else if c.toNat = 0x0C then ['\\', 'f']
  else if c.toNat = 0x0A then ['\\', 'n']
  else if c.toNat = 0x0D then ['\\', 'r']
  else if c.toNat = 0x09 then ['\\', 't']
  else '\\' :: 'u' :: (Radix.padded 16 4 c.toNat).map Radix.Case.lower.digit

def quote (s : String) : List Char := '"' :: s.toList.flatMap escapeChar ++ ['"']

def integerText (n : Int) : List Char :=
  let cs := (Radix.digits 10 n.natAbs).map Radix.Case.lower.digit
  if n < 0 then '-' :: cs else cs

mutual

/-- The characters of a value, without blanks. -/
def Value.chars : Value → List Char
  | .null => ['n', 'u', 'l', 'l']
  | .bool true => ['t', 'r', 'u', 'e']
  | .bool false => ['f', 'a', 'l', 's', 'e']
  | .integer n => integerText n
  | .double bits => Double.text bits
  | .string s => quote s
  | .array [] => ['[', ']']
  | .array (v :: rest) => '[' :: v.chars ++ Value.itemChars rest
  | .object [] => ['\x7b', '\x7d']
  | .object ((k, v) :: rest) => '\x7b' :: quote k ++ ':' :: v.chars ++ Value.memberChars rest

/-- The characters of further items and of the closing bracket. -/
def Value.itemChars : List Value → List Char
  | [] => [']']
  | v :: rest => ',' :: v.chars ++ Value.itemChars rest

/-- The characters of further members and of the closing brace. -/
def Value.memberChars : List (String × Value) → List Char
  | [] => ['\x7d']
  | (k, v) :: rest => ',' :: quote k ++ ':' :: v.chars ++ Value.memberChars rest

end

def Value.text (v : Value) : String := String.ofList v.chars

def Value.bytes (v : Value) : ByteArray := v.text.toUTF8

end Switchboard.Json
