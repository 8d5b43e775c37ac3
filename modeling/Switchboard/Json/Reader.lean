import Switchboard.Json.Raw

/-!
# Reading JSON

The reader takes octets to a tree. It follows the grammar strictly: no comments,
no trailing commas, nothing after the value. What a string or a number may hold
is judged later, by the one who asks for it.
-/

namespace Switchboard.Json

/-- What is left to read. -/
abbrev Octets := List UInt8

/-- Blanks are space, tab, line feed and carriage return. -/
def isBlank (b : UInt8) : Bool := b == 0x20 || b == 0x09 || b == 0x0A || b == 0x0D

def skipBlank : Octets → Octets
  | [] => []
  | b :: rest => if isBlank b then skipBlank rest else b :: rest

def hexOctet? (b : UInt8) : Option Nat := Radix.digit? (Char.ofNat b.toNat)

def codeUnit? (a b c d : UInt8) : Option UInt16 :=
  ([a, b, c, d].mapM hexOctet?).map fun ds => UInt16.ofNat (Radix.value 16 ds)

/-- The code unit of an escape of one letter. -/
def escape? (b : UInt8) : Option UInt16 :=
  if b == 0x22 then some 0x22        -- quote
  else if b == 0x5C then some 0x5C   -- backslash
  else if b == 0x2F then some 0x2F   -- slash
  else if b == 0x62 then some 0x08   -- b
  else if b == 0x66 then some 0x0C   -- f
  else if b == 0x6E then some 0x0A   -- n
  else if b == 0x72 then some 0x0D   -- r
  else if b == 0x74 then some 0x09   -- t
  else none

/-- A string literal behind its opening quote, up to and with the closing one. -/
def readLiteral : Octets → Option (Literal × Octets)
  | [] => none
  | 0x22 :: rest => some ([], rest)
  | 0x5C :: 0x75 :: a :: b :: c :: d :: rest => do
    let u ← codeUnit? a b c d
    let (l, left) ← readLiteral rest
    some (.unit u :: l, left)
  | 0x5C :: e :: rest => do
    let u ← escape? e
    let (l, left) ← readLiteral rest
    some (.unit u :: l, left)
  | b :: rest => do
    if b == 0x5C then none
    let (l, left) ← readLiteral rest
    some (.octet b :: l, left)

def readDigits : Octets → List Nat × Octets
  | [] => ([], [])
  | b :: rest =>
    if 0x30 ≤ b && b ≤ 0x39 then
      let (ds, left) := readDigits rest
      ((b.toNat - 0x30) :: ds, left)
    else ([], b :: rest)

/-- Digits before the point: a single zero, or digits that do not start with one. -/
def readWhole : Octets → Option (List Nat × Octets)
  | 0x30 :: rest => some ([0], rest)
  | input =>
    match readDigits input with
    | ([], _) => none
    | (ds, left) => some (ds, left)

def readFraction : Octets → Option (List Nat × Octets)
  | 0x2E :: rest =>
    match readDigits rest with
    | ([], _) => none
    | (ds, left) => some (ds, left)
  | input => some ([], input)

def readExponentDigits (input : Octets) : Option (Int × Octets) :=
  let (negative, input) :=
    match input with
    | 0x2B :: rest => (false, rest)
    | 0x2D :: rest => (true, rest)
    | _ => (false, input)
  match readDigits input with
  | ([], _) => none
  | (ds, left) =>
    let e : Int := Radix.value 10 ds
    some (if negative then -e else e, left)

def readExponent : Octets → Option (Option Int × Octets)
  | b :: rest =>
    if b == 0x65 || b == 0x45 then (readExponentDigits rest).map fun (e, left) => (some e, left)
    else some (none, b :: rest)
  | [] => some (none, [])

def readNumeral (input : Octets) : Option (Numeral × Octets) := do
  let (negative, input) :=
    match input with
    | 0x2D :: rest => (true, rest)
    | _ => (false, input)
  let (whole, input) ← readWhole input
  let (fraction, input) ← readFraction input
  let (exponent, input) ← readExponent input
  some (⟨negative, whole, fraction, exponent⟩, input)

/-- A value that is neither a string nor has parts. -/
def readScalar : Octets → Option (Raw × Octets)
  | 0x6E :: 0x75 :: 0x6C :: 0x6C :: rest => some (.null, rest)
  | 0x74 :: 0x72 :: 0x75 :: 0x65 :: rest => some (.bool true, rest)
  | 0x66 :: 0x61 :: 0x6C :: 0x73 :: 0x65 :: rest => some (.bool false, rest)
  | input => (readNumeral input).map fun (n, left) => (.number n, left)

/-! ## Values -/

mutual

/-- A value behind leading blanks. Every nested call has less fuel. As much fuel as the text has
octets is enough, since a value nested in brackets lies between two octets of its own. -/
def readValue : (fuel : Nat) → Octets → Option (Raw × Octets)
  | 0, _ => none
  | fuel + 1, input =>
    match skipBlank input with
    | 0x22 :: rest => (readLiteral rest).map fun (l, left) => (.string l, left)
    | 0x5B :: rest =>
      match skipBlank rest with
      | 0x5D :: left => some (.array [], left)
      | rest => (readItems fuel rest).map fun (items, left) => (.array items, left)
    | 0x7B :: rest =>
      match skipBlank rest with
      | 0x7D :: left => some (.object [], left)
      | rest => (readMembers fuel rest).map fun (members, left) => (.object members, left)
    | rest => readScalar rest

/-- One or more items, separated by commas, up to and with the closing bracket. -/
def readItems : (fuel : Nat) → Octets → Option (List Raw × Octets)
  | 0, _ => none
  | fuel + 1, input => do
    let (item, rest) ← readValue fuel input
    match skipBlank rest with
    | 0x2C :: rest =>
      let (items, left) ← readItems fuel rest
      some (item :: items, left)
    | 0x5D :: left => some ([item], left)
    | _ => none

/-- One or more members, separated by commas, up to and with the closing brace. -/
def readMembers : (fuel : Nat) → Octets → Option (List (Literal × Raw) × Octets)
  | 0, _ => none
  | fuel + 1, input => do
    match skipBlank input with
    | 0x22 :: rest =>
      let (key, rest) ← readLiteral rest
      match skipBlank rest with
      | 0x3A :: rest =>
        let (value, rest) ← readValue fuel rest
        match skipBlank rest with
        | 0x2C :: rest =>
          let (members, left) ← readMembers fuel rest
          some ((key, value) :: members, left)
        | 0x7D :: left => some ([(key, value)], left)
        | _ => none
      | _ => none
    | _ => none

end

/-- The tree of a text that is one value with nothing but blanks around it. -/
def Raw.ofOctets? (input : Octets) : Option Raw := do
  let (raw, left) ← readValue (input.length + 1) input
  match skipBlank left with
  | [] => some raw
  | _ => none

def Raw.ofBytes? (bytes : ByteArray) : Option Raw := Raw.ofOctets? bytes.data.toList

end Switchboard.Json
