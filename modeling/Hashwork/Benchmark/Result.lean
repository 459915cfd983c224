import Hashwork.Algorithm.Basic
import Hashwork.Benchmark.Sample
import Hashwork.Decimal.Shortest
import Hashwork.Log
import Hashwork.Text.Pad

/-!
# Results of a benchmark

A benchmark ends in a sample or in a fault.  Its result is a speed in millions of hashes per second, and
a speed below every real one when there is none to report, so that results can be compared without asking
how they came about.
-/

namespace Hashwork

/-- Why a benchmark has no sample. -/
inductive BenchFault where
  | unavailable
  | crashed (signal : Int)
  | timedOut (timeout : Duration)
  | exited (status : Int)
  | mismatch
  | noResult
  | io (text : String)
deriving DecidableEq, Repr

def BenchFault.message : BenchFault → String
  | unavailable => "kernel is not available on this CPU"
  | crashed signal => "benchmark process killed by signal " ++ toString signal
  | timedOut timeout => "benchmark process timed out after " ++ timeout.text
  | exited status => "benchmark process exited with status " ++ toString status
  | mismatch => "kernel output differs from the reference kernel"
  | noResult => "benchmark process exited without a result"
  | io text => "IO error: " ++ text

/-- How a benchmark ended. -/
abbrev BenchOutcome := Except BenchFault Sample

structure BenchResult where
  algorithm : Algorithm
  rate : Float

namespace BenchResult

def failedRate : Float := -1

def failed (algorithm : Algorithm) : BenchResult := ⟨algorithm, failedRate⟩

def isSuccess (result : BenchResult) : Bool :=
  result.rate ≥ 0

/-- Speeds are logged with five decimal places. -/
def rateText (rate : Float) : String :=
  Decimal.fixed 5 rate ++ " MH/s"

/-- The name in quotes, in a column of its own. -/
def column (algorithm : Algorithm) : String :=
  Text.padRight 14 ("\"" ++ algorithm.name ++ "\"")

/-- The result of a benchmark, without the log. -/
def ofOutcome (algorithm : Algorithm) (outcome : BenchOutcome) : BenchResult :=
  match outcome with
  | .ok sample => ⟨algorithm, sample.rate?.getD failedRate⟩
  | .error _ => failed algorithm

def outcomeLine (algorithm : Algorithm) : BenchOutcome → Log.Line
  | .ok sample =>
    match sample.rate? with
    | some rate => ⟨.info, column algorithm ++ " : " ++ rateText rate⟩
    | none => ⟨.warn, column algorithm ++ " : benchmark measured no elapsed time"⟩
  | .error fault =>
    ⟨.warn, column algorithm ++ " : algorithm fails on this platform (" ++ fault.message ++ ")"⟩

/-- The result of a benchmark, with a log line on how it ended. -/
def report (algorithm : Algorithm) (outcome : BenchOutcome) : Logging BenchResult := do
  let line := outcomeLine algorithm outcome
  Log.note line.level line.text
  return ofOutcome algorithm outcome

/-- Speeds are written with the point in place from a hundred-thousandth to below `10 ^ 16`. -/
def jsonLayout : Decimal.Layout := ⟨-5, 15⟩

def jsonRate (rate : Float) : String :=
  (Decimal.shortest? jsonLayout rate).getD "null"

def json (result : BenchResult) : String :=
  "\x7b\"algorithm\":\"" ++ result.algorithm.name ++ "\",\"rate\":" ++ jsonRate result.rate ++
    "\x7d"

/-- The lines of a list of results as an indented document. -/
def jsonLines : List BenchResult → List String
  | [] => ["[]"]
  | results =>
    let entry (result : BenchResult) (last : Bool) : List String :=
      ["  \x7b", "    \"algorithm\": \"" ++ result.algorithm.name ++ "\",",
        "    \"rate\": " ++ jsonRate result.rate, if last then "  \x7d" else "  \x7d,"]
    let count := results.length
    "[" :: (results.zipIdx.flatMap fun (result, i) ↦ entry result (i + 1 == count)) ++ ["]"]

/-- The line of a table of results. -/
def row (result : BenchResult) : String :=
  Text.padRight 14 result.algorithm.name ++ " " ++
    if result.isSuccess then Text.padLeft 12 (Decimal.fixed 3 result.rate) ++ " MH/s"
    else Text.padLeft 12 "failed"

end BenchResult

end Hashwork
