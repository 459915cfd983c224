import Hashwork.Benchmark.Isolation
import Hashwork.Benchmark.Measure

/-!
# The benchmark of one algorithm

An algorithm without a kernel fails at once.  Otherwise its kernel is measured, in a process of its own if
that is called for, and what came of it is logged and turned into a result.  There is a result whatever
happens to the measurement; the one thing that leaves none is a deadline that no clock can show.
-/

namespace Hashwork

/-- A computation was given up in the middle, and so was the thread that it ran in. -/
structure Breakdown where
  message : String
deriving DecidableEq, Repr

abbrev Attempt := Except Breakdown

/-- What a user may set about benchmarks. -/
structure BenchConfig where
  timeoutSeconds : UInt64
  isolateAll : Bool
deriving DecidableEq, Repr

def BenchConfig.standard : BenchConfig := ⟨60, false⟩

structure Harness where
  /-- How long an isolated measurement may take. -/
  timeout : Duration
  /-- The pause between two looks for the end of a child. -/
  pollInterval : Duration
  writeAttempts : Nat
  /-- The pause after a write in vain. -/
  retryDelay : Duration
  /-- Whether to isolate kernels that cannot fail on any processor. -/
  isolateAll : Bool
deriving DecidableEq, Repr

namespace Harness

def standard : Harness where
  timeout := .ofSeconds 60
  pollInterval := .ofMillis 50
  writeAttempts := 6
  retryDelay := .ofMillis 10
  isolateAll := false

def ofConfig (config : BenchConfig) : Harness :=
  { standard with
    timeout := .ofSeconds config.timeoutSeconds
    isolateAll := config.isolateAll }

def withTimeout (harness : Harness) (timeout : Duration) : Harness :=
  { harness with timeout := timeout }

def withPollInterval (harness : Harness) (pollInterval : Duration) : Harness :=
  { harness with pollInterval := pollInterval }

def label (harness : Harness) : String :=
  "BenchmarkHarness \x7b timeout: " ++ harness.timeout.text ++
    ", poll_interval: " ++ harness.pollInterval.text ++
    ", write_attempts: " ++ toString harness.writeAttempts ++
    ", retry_delay: " ++ harness.retryDelay.text ++
    ", isolate_all: " ++ toString harness.isolateAll ++ " \x7d"

/-- An isolated measurement with the limits of this harness, on a system where all goes well. -/
def setup (harness : Harness) (deed : Isolation.Deed) : Isolation.Setup where
  deed := deed
  timeout := harness.timeout
  writeAttempts := harness.writeAttempts
  pipeFault := none
  forkFault := none
  reapsItself := false

inductive Event where
  | note (line : Log.Line)
  /-- Measures a kernel in this process. -/
  | measure (kernel : Kernel) (mode : BenchMode)
  /-- Measures a kernel in a process of its own. -/
  | isolate (kernel : Kernel) (mode : BenchMode)

abbrev Event.Answer : Event → Type
  | .note _ => Unit
  | .measure .. => Option Sample
  | .isolate .. => Isolation.Result

end Harness

abbrev Benchmarking := Routine Harness.Event Harness.Event.Answer

namespace Harness

/-- The end of a benchmark. -/
def conclude (algorithm : Algorithm) (outcome : BenchOutcome) : Benchmarking (Attempt BenchResult) :=
  ((BenchResult.report algorithm outcome).embed Event.note fun _ answer ↦ answer).bind fun result ↦
    .done (.ok result)

/-- What a measurement in this process came to. -/
def outcomeOf : Option Sample → BenchOutcome
  | some sample => .ok sample
  | none => .error .mismatch

def isIsolated (harness : Harness) (algorithm : Algorithm) : Bool :=
  harness.isolateAll || algorithm.needsIsolation

def benchmark (harness : Harness) (processor : Processor) (algorithm : Algorithm)
    (mode : BenchMode) : Benchmarking (Attempt BenchResult) :=
  match algorithm.kernel? processor with
  | none => conclude algorithm (.error .unavailable)
  | some kernel =>
    .ask (.note ⟨.debug, "Benchmarking " ++ algorithm.name ++ " over " ++ toString mode.nonces ++
      " nonces"⟩) fun _ ↦
      if harness.isIsolated algorithm then
        .ask (.isolate kernel mode) fun
          | .outcome outcome => conclude algorithm outcome
          | .overflowed => .done (.error ⟨Isolation.overflowMessage⟩)
      else
        .ask (.measure kernel mode) fun sample ↦ conclude algorithm (outcomeOf sample)

end Harness

end Hashwork
