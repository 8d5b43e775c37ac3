import Switchboard.Radix

/-!
# Spans of time

A span is a count of seconds and of nanoseconds below one second. Timers count
whole milliseconds, so a span is read in two ways: rounded down where it
becomes a time to live, rounded up where it becomes a timer.
-/

namespace Switchboard

/-- A span of time with nanosecond precision. -/
structure Duration where
  seconds : UInt64
  subsecond : Fin 1000000000
  deriving DecidableEq, Repr

namespace Duration

def nanos (d : Duration) : Nat :=
  d.seconds.toNat * 1000000000 + d.subsecond.val

def ofMillis (ms : UInt64) : Duration where
  seconds := ms / 1000
  subsecond := ⟨(ms.toNat % 1000) * 1000000, by omega⟩

def floorMillis (d : Duration) : Nat :=
  d.nanos / 1000000

def ceilMillis (d : Duration) : Nat :=
  (d.nanos + 999999) / 1000000

/-- A decimal number with `width` places after the point, of which trailing zeros are not
written; the point is not written either when nothing follows it. -/
def exactDecimal (whole fraction width : Nat) : String :=
  if fraction = 0 then Radix.decimal whole
  else
    let places := ((Radix.padded 10 width fraction).reverse.dropWhile (· == 0)).reverse
    Radix.decimal whole ++ "." ++ String.ofList (places.map Radix.Case.lower.digit)

/-- The span in the largest unit in which it is at least one, exactly; the empty span is `0ns`. -/
def text (d : Duration) : String :=
  let n := d.subsecond.val
  if 0 < d.seconds.toNat then exactDecimal d.seconds.toNat n 9 ++ "s"
  else if 1000000 ≤ n then exactDecimal (n / 1000000) (n % 1000000) 6 ++ "ms"
  else if 1000 ≤ n then exactDecimal (n / 1000) (n % 1000) 3 ++ "µs"
  else Radix.decimal n ++ "ns"

end Duration

end Switchboard
