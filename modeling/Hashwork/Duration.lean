import Hashwork.Decimal.Places

/-!
# Durations

A duration is a number of whole seconds and a number of nanoseconds less than a second.  Its text uses
the largest of the units s, ms, µs and ns of which there is at least one whole, and as many decimal places
as it takes.
-/

namespace Hashwork

structure Duration where
  seconds : UInt64
  nanos : Fin 1000000000
deriving DecidableEq, Repr

namespace Duration

def ofSeconds (seconds : UInt64) : Duration := ⟨seconds, 0⟩

/-- The duration of so many nanoseconds; the whole seconds must be less than `2 ^ 64`. -/
def ofNanos (nanos : Nat) : Duration :=
  ⟨(nanos / 1000000000).toUInt64, ⟨nanos % 1000000000, Nat.mod_lt _ (by decide)⟩⟩

def ofMillis (millis : Nat) : Duration := ofNanos (millis * 1000000)

def zero : Duration := ⟨0, 0⟩

def totalNanos (d : Duration) : Nat :=
  d.seconds.toNat * 1000000000 + d.nanos.val

/-- The duration in seconds, as the sum of two doubles. -/
def toFloat (d : Duration) : Float :=
  d.seconds.toFloat + d.nanos.val.toFloat / 1e9

/-- A whole number and a fraction in units of `10 ^ -places`, without trailing zeros. -/
def decimalText (whole fraction places : Nat) : String :=
  let digits := Nat.toDigits 10 fraction
  let padded := List.replicate (places - digits.length) '0' ++ digits
  let kept := (padded.reverse.dropWhile (· == '0')).reverse
  toString whole ++ if kept.isEmpty then "" else "." ++ String.ofList kept

/-- The largest unit with a whole part, with that part, the fraction, and the fraction's places. -/
def inLargestUnit (d : Duration) : Nat × Nat × Nat × String :=
  let nanos := d.nanos.val
  if d.seconds ≠ 0 then (d.seconds.toNat, nanos, 9, "s")
  else if 1000000 ≤ nanos then (nanos / 1000000, nanos % 1000000, 6, "ms")
  else if 1000 ≤ nanos then (nanos / 1000, nanos % 1000, 3, "µs")
  else (nanos, 0, 0, "ns")

def text (d : Duration) : String :=
  let (whole, fraction, places, unit) := d.inLargestUnit
  decimalText whole fraction places ++ unit

/-- The same unit with a set number of decimal places, a tie going to the even digit. -/
def roundedText (places : Nat) (d : Duration) : String :=
  let (whole, fraction, scale, unit) := d.inLargestUnit
  let parts := Nat.pow 10 scale
  let exact := (whole * parts + fraction) * Nat.pow 10 places
  Decimal.withPoint places (Decimal.roundHalfEven ⟨exact, parts⟩) ++ unit

end Duration

end Hashwork
