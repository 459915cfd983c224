import Hashwork.Duration

/-!
# Points in time

A clock reading is a number of nanoseconds, of which the whole seconds fit into a signed 64-bit number.
A point in time that is too far away cannot be represented, so adding a duration may fail.
-/

namespace Hashwork

structure Instant where
  nanos : Nat
deriving DecidableEq, Repr

namespace Instant

/-- The last second that a clock can show. -/
def lastSecond : Nat := 0x7fffffffffffffff

/-- The point in time that is `d` later, if a clock can show it. -/
def add? (t : Instant) (d : Duration) : Option Instant :=
  let nanos := t.nanos + d.totalNanos
  if nanos / 1000000000 ≤ lastSecond then some ⟨nanos⟩ else none

/-- The time from `start` on; zero if `t` is earlier. -/
def since (t start : Instant) : Duration :=
  .ofNanos (t.nanos - start.nanos)

end Instant

end Hashwork
