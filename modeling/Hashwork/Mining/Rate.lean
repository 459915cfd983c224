import Hashwork.Decimal.Places
import Hashwork.Duration

/-!
# Hashing speeds

A speed is shown in hashes per second, with a prefix for each factor of a thousand up to a million
millions.
-/

namespace Hashwork

structure HashRate where
  hashes : UInt64
  elapsed : Duration
deriving DecidableEq, Repr

namespace HashRate

def perSecond (rate : HashRate) : Float :=
  rate.hashes.toFloat / rate.elapsed.toFloat

def prefixes : List String := ["", "k", "M", "G", "T"]

/-- The number of whole factors of a thousand in a speed, at most four, by its logarithm.  A logarithm that
is negative or undefined counts as zero. -/
def magnitude (speed : Float) : Nat :=
  let log := Float.log speed / Float.log 1000
  if log ≥ 4 then 4
  else if log ≥ 3 then 3
  else if log ≥ 2 then 2
  else if log ≥ 1 then 1
  else 0

def text (precision : Nat) (rate : HashRate) : String :=
  let speed := rate.perSecond
  let magnitude := magnitude speed
  Decimal.fixed precision (speed / (Nat.pow 1000 magnitude).toFloat) ++ " " ++
    prefixes.getD magnitude "" ++ "h/s"

end HashRate

end Hashwork
