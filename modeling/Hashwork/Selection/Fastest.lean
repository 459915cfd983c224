import Hashwork.Benchmark.Harness

/-!
# The fastest of several results

Results are compared in order, and a later one wins only if it is faster.  An undefined rate loses to any
result that follows it, and wins over any that came before.
-/

namespace Hashwork.Selection

/-- Which of the best result so far and the next one is kept. -/
def better : Option BenchResult → BenchResult → Option BenchResult
  | some best, result => if best.rate ≥ result.rate then some best else some result
  | none, result => some result

def fastest (results : List BenchResult) : Option BenchResult :=
  results.foldl better none

/-- Benchmarks the candidates one after the other, from the best result so far, and ends with the fastest.
It is given up when a benchmark is. -/
def fastestOf {E : Type} {R : E → Type} (bench : Algorithm → Routine E R (Attempt BenchResult)) :
    List Algorithm → Option BenchResult → Routine E R (Attempt (Option BenchResult))
  | [], best => .done (.ok best)
  | algorithm :: rest, best =>
    (bench algorithm).bind fun
      | .ok result => fastestOf bench rest (better best result)
      | .error breakdown => .done (.error breakdown)

/-- The fastest of the candidates, each of which is benchmarked once. -/
def selectFastest {E : Type} {R : E → Type}
    (bench : Algorithm → Routine E R (Attempt BenchResult)) (candidates : List Algorithm) :
    Routine E R (Attempt (Option BenchResult)) :=
  fastestOf bench candidates none

end Hashwork.Selection
