import Switchboard.Json.Raw

/-!
# Numbers with a fraction

Numbers that are no 64-bit integers are held as the bits of an IEEE double. They
are written with the fewest digits that read back as the same double. They are
read by one scaling step: as many digits as fit into 64 bits, times or divided
by a power of ten.
-/

namespace Switchboard.Json.Double

/-! ## Reading -/

/-- The number formed by leading digits as long as it fits into 64 bits, continuing from `start`,
and how many digits it took. -/
def fitting (start : Nat) : List Nat → Nat × Nat
  | [] => (start, 0)
  | d :: ds =>
    if start * 10 + d < 2 ^ 64 then
      let (n, taken) := fitting (start * 10 + d) ds
      (n, taken + 1)
    else (start, 0)

/-- The double nearest to a power of ten up to the 308th. -/
def tenTo (k : Nat) : Float := Float.ofScientific 1 false k

/-- A 64-bit number times a power of ten, unless it exceeds every double. Powers below the least
one that a double can hold are applied in two steps. -/
def scale? (significand : Nat) (exponent : Int) : Option Float :=
  let f := significand.toUInt64.toFloat
  if significand = 0 then some f
  else if 0 ≤ exponent then
    if exponent ≤ 308 then
      let g := f * tenTo exponent.toNat
      if g.isInf then none else some g
    else none
  else if -308 ≤ exponent then some (f / tenTo (-exponent).toNat)
  else if -616 ≤ exponent then some (f / tenTo 308 / tenTo (-exponent - 308).toNat)
  else some 0

/-- The bits of the double that a numeral is read as, unless it exceeds every double. Digits
before the point that do not fit raise the exponent; behind the point they are dropped. -/
def ofNumeral? (n : Numeral) : Option UInt64 := do
  let (whole, taken) := fitting 0 n.whole
  let (significand, places) := fitting whole n.fraction
  let exponent : Int := (n.whole.length - taken : Nat) - (places : Int) + n.exponent.getD 0
  let f ← scale? significand exponent
  some (if n.negative then -f else f).toBits

/-! ## Writing -/

/-- A positive double as an exact number `mantissa * 2 ^ exponent`, and whether its lower
neighbour is only half as far away as its upper one. -/
structure Parts where
  mantissa : Nat
  exponent : Int
  narrowBelow : Bool

def parts (bits : UInt64) : Parts :=
  let e := (bits >>> 52 &&& 0x7FF).toNat
  let m := (bits &&& 0xFFFFFFFFFFFFF).toNat
  if e = 0 then ⟨m, -1074, false⟩ else ⟨m + 2 ^ 52, (e : Int) - 1075, m == 0 && 1 < e⟩

def timesTenTo (num den : Nat) (k : Int) : Nat × Nat :=
  if 0 ≤ k then (num * 10 ^ k.toNat, den) else (num, den * 10 ^ (-k).toNat)

/-- A decimal number of few digits that reads back as the double: `digits * 10 ^ exponent`. -/
structure Decimal where
  digits : Nat
  exponent : Int

/-- Candidate with the last digit at `10 ^ place`, if one reads back as the double; of two the
nearer one, and of two equally near ones the even one. All numbers are in quarters of the unit
of the mantissa, so that the ends of the interval are whole. -/
def candidate? (p : Parts) (place : Int) : Option Decimal :=
  let quarter : Nat × Nat :=
    if 2 ≤ p.exponent then (2 ^ (p.exponent - 2).toNat, 1) else (1, 2 ^ (2 - p.exponent).toNat)
  let (num, den) := timesTenTo quarter.1 quarter.2 (-place)
  let mid := 4 * p.mantissa * num
  let low := (4 * p.mantissa - (if p.narrowBelow then 1 else 2)) * num
  let high := (4 * p.mantissa + 2) * num
  let inside (d : Nat) : Bool :=
    if p.mantissa % 2 = 0 then low ≤ d * den && d * den ≤ high
    else low < d * den && d * den < high
  let floor := mid / den
  let below := mid - floor * den
  let above := (floor + 1) * den - mid
  match inside floor && 0 < floor, inside (floor + 1) with
  | false, false => none
  | true, false => some ⟨floor, place⟩
  | false, true => some ⟨floor + 1, place⟩
  | true, true =>
    if below < above || (below == above && floor % 2 == 0) then some ⟨floor, place⟩
    else some ⟨floor + 1, place⟩

def firstPlace (p : Parts) : Int :=
  let (num, den) :=
    if 0 ≤ p.exponent then (p.mantissa * 2 ^ p.exponent.toNat, 1)
    else (p.mantissa, 2 ^ (-p.exponent).toNat)
  ((Radix.digits 10 (num * 10 ^ 400 / den)).length : Int) - 401

def shortest (p : Parts) : Decimal :=
  let first := firstPlace p
  let found := (List.range 17).findSome? fun (k : Nat) => candidate? p (first - k)
  found.getD ⟨p.mantissa, p.exponent⟩

/-- Numbers from `10 ^ -5` up to, but not including, `10 ^ 16` are written without an exponent.
`point` is where the point stands, counted from the first digit. -/
def isPositional (point : Int) : Bool := -5 < point && point ≤ 16

/-- Digits and exponent as text, without trailing zeros: positional numbers have at least one
digit behind the point; others have one digit before it, none is added behind, and the exponent
always has a sign. -/
def Decimal.text (d : Decimal) : List Char :=
  let ds := Radix.digits 10 d.digits
  let cs := ((ds.reverse.dropWhile (· == 0)).reverse).map Radix.Case.lower.digit
  let point : Int := ds.length + d.exponent
  let exponent : Int := point - cs.length
  if isPositional point then
    if 0 ≤ exponent then cs ++ List.replicate exponent.toNat '0' ++ ['.', '0']
    else if 0 < point then cs.take point.toNat ++ '.' :: cs.drop point.toNat
    else '0' :: '.' :: List.replicate (-point).toNat '0' ++ cs
  else
    let e := point - 1
    let mark := 'e' :: (if e < 0 then '-' else '+') ::
      (Radix.digits 10 e.natAbs).map Radix.Case.lower.digit
    match cs with
    | [c] => c :: mark
    | c :: rest => c :: '.' :: rest ++ mark
    | [] => mark

def text (bits : UInt64) : List Char :=
  let sign := if bits >>> 63 == 1 then ['-'] else []
  let p := parts bits
  sign ++ (if p.mantissa = 0 then ['0', '.', '0'] else (shortest p).text)

end Switchboard.Json.Double
