import Hashwork.Benchmark.Harness

/-!
# Benchmarks by a steady clock

Everything about a benchmark but the time it takes can be found out without one.  Here the clock shows a
microsecond for every nonce, and an isolated measurement takes its steps in the plain order, on a system
that may have no pipe to give.
-/

namespace Hashwork.Harness

def measureSteadily (kernel : Kernel) (mode : BenchMode) : Option Sample :=
  (Benchmark.measure kernel mode).run (m := Id) fun nonces ↦ Instant.mk (nonces * 1000)

/-- When isolated measurements begin, an hour after the clock did. -/
def morning : Instant := ⟨3600 * 1000000000⟩

/-- An isolated measurement; `pipeFault` says why there is no pipe. -/
def isolateSteadily (harness : Harness) (pipeFault : Option String) (kernel : Kernel)
    (mode : BenchMode) : Isolation.Result :=
  let setup := harness.setup (.measured (measureSteadily kernel mode))
  ({ setup with pipeFault := pipeFault }.plainResult morning .written).getD .overflowed

/-- Answers a benchmark and collects its log. -/
def answerSteadily (harness : Harness) : (e : Event) → StateM (List Log.Line) e.Answer
  | .note line => modify (· ++ [line])
  | .measure kernel mode => return measureSteadily kernel mode
  | .isolate kernel mode => return harness.isolateSteadily none kernel mode

/-- The result of a benchmark with its log. -/
def rehearse {α : Type} (harness : Harness) (benchmarking : Benchmarking α) : α × List Log.Line :=
  (benchmarking.run harness.answerSteadily).run []

end Hashwork.Harness
