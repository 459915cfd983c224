import Hashwork.Algorithm.Choice
import Hashwork.Benchmark.Sample
import Hashwork.Clock

/-!
# Measuring a kernel

All kernels hash the same header.  Before a kernel is timed it is checked: on an item that accepts every
hash, each of its first nonces, as many as two batches, has to be found with the hash of the reference.
A kernel that fails has no sample.
-/

namespace Hashwork.Benchmark

/-- The compact target of the measured item, which hardly any hash meets. -/
def bits : Word := 0x1d00ffff

/-- A made-up header with `bits` in its place and a zero nonce. -/
def header : Header :=
  Header.withNonce
    ⟨Vector.ofFn fun i ↦
      if h : 72 ≤ i.val ∧ i.val < 76 then bits.littleEndianByte ⟨i.val - 72, by omega⟩
      else i.val.toUInt8 * 0x9d ^^^ 0x5a⟩
    0

/-- The item on which kernels are checked. -/
def probe : WorkItem := .ofHeader header .max ⟨0⟩

/-- The item on which they are timed. -/
def workload : WorkItem := .ofHeader header (.ofCompact bits) ⟨0⟩

/-- Runs the kernel over each nonce by itself.  The item is handed on from run to run. -/
def checkEach (kernel : Kernel) : List Word → WorkItem → Bool
  | [], _ => true
  | nonce :: rest, item =>
    let (item, run) := kernel.runSteady false item ⟨nonce, nonce, UInt32.le_refl _⟩
    run.found && item.hash == item.referenceHash nonce && checkEach kernel rest item

/-- Scrypt has no second implementation to be checked against. -/
def check (kernel : Kernel) : Bool :=
  kernel.pow != .sha256d || checkEach kernel ((List.range (2 * kernel.lanes)).map Nat.toUInt32) probe

/-- The nonces that are hashed for one measurement. -/
def range (mode : BenchMode) : NonceRange where
  first := 0
  last := (mode.nonces - 1).toUInt32
  ordered := UInt32.le_iff_toNat_le.2 (Nat.zero_le _)

/-- A routine that reads a clock, each time with the number of nonces hashed so far. -/
abbrev Timed := Routine Nat fun _ ↦ Instant

def measure (kernel : Kernel) (mode : BenchMode) : Timed (Option Sample) :=
  if check kernel then
    .ask 0 fun start ↦
      let nonces := (kernel.runSteady false workload (range mode)).2.last.toNat + 1
      .ask nonces fun stop ↦ .done (some ⟨nonces.toUInt64, stop.since start⟩)
  else .done none

end Hashwork.Benchmark
