import Hashwork.Bytes
import Hashwork.Duration

/-!
# Samples

A sample is what a measurement yields: a number of nonces and the time it took to hash them.  Between
processes it travels as sixteen bytes, both numbers least significant byte first, with the time in
nanoseconds; a time that does not fit is replaced by the greatest that does.
-/

namespace Hashwork

structure Sample where
  nonces : UInt64
  elapsed : Duration
deriving DecidableEq, Repr

namespace Sample

/-- The elapsed time in nanoseconds, at most `2 ^ 64 - 1`. -/
def nanosField (s : Sample) : UInt64 :=
  (min s.elapsed.totalNanos (UInt64.size - 1)).toUInt64

/-- Byte `i` of a 64-bit number, counted from the least significant. -/
def littleEndianByte (x : UInt64) (i : Nat) : UInt8 :=
  (x >>> (8 * i).toUInt64).toUInt8

def encode (s : Sample) : Bytes 16 :=
  Vector.ofFn fun i ↦
    if i.val < 8 then littleEndianByte s.nonces i.val
    else littleEndianByte s.nanosField (i.val - 8)

/-- The 64-bit number in the eight bytes from `start` on, least significant first. -/
def littleEndianNumber (bytes : Bytes 16) (start : Nat) (h : start + 8 ≤ 16) : UInt64 :=
  Nat.fold 8 (fun i _ x ↦ x ||| (bytes[start + i].toUInt64 <<< (8 * i).toUInt64)) 0

def decode (bytes : Bytes 16) : Sample where
  nonces := littleEndianNumber bytes 0 (by decide)
  elapsed := .ofNanos (littleEndianNumber bytes 8 (by decide)).toNat

/-- Nonces per microsecond, unless no time was measured. -/
def rate? (s : Sample) : Option Float :=
  let micros := s.elapsed.toFloat * 1e6
  if micros > 0 then some (s.nonces.toFloat / micros) else none

end Sample

end Hashwork
