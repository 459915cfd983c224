import Hashwork.Selection.Fastest

/-!
# The cell that holds the selected algorithm

An algorithm is selected once.  The first call to resolve a choice decides and leaves its algorithm in a
cell; later calls return what is there, whatever their own choice, until the cell is reset.

The cell has a lock that can be held by many who read or by one who writes.  A call that finds the cell
empty waits to hold the lock for writing, looks again, and keeps the lock while it benchmarks, so that
nobody else does.  A benchmark that is given up takes the call with it and leaves the lock marked; the mark
is ignored by everyone.
-/

namespace Hashwork.Selection

inductive Event where
  /-- Reads the cell, as soon as nobody holds the lock for writing. -/
  | read
  /-- Waits for the lock for writing and looks into the cell. -/
  | acquire
  | bench (algorithm : Algorithm)
  | note (line : Log.Line)
  | write (content : Option Algorithm)
  | release
  /-- Lets go of the lock because the call is given up. -/
  | abandon

abbrev Event.Answer : Event → Type
  | .read | .acquire => Option Algorithm
  | .bench _ => Attempt BenchResult
  | .note _ | .write _ | .release | .abandon => Unit

abbrev Selecting := Routine Event Event.Answer

/-- Why a choice is not resolved. -/
inductive Fault where
  /-- There is no candidate. -/
  | nothingUsable
  | givenUp (breakdown : Breakdown)
deriving DecidableEq, Repr

def Fault.message : Fault → String
  | nothingUsable => "No hashing kernel is usable on this CPU"
  | givenUp breakdown => breakdown.message

/-- The end of a call that has come to an algorithm while it holds the lock. -/
def settle (algorithm : Algorithm) : Selecting (Except Fault Algorithm) :=
  .ask (.write (some algorithm)) fun _ ↦ .ask .release fun _ ↦ .done (.ok algorithm)

def summaryLine (best : BenchResult) : Log.Line :=
  if best.isSuccess then
    ⟨.info, "\"" ++ best.algorithm.name ++ "\" : is the fastest algorithm at " ++
      BenchResult.rateText best.rate⟩
  else
    ⟨.warn, "Every algorithm failed its benchmark, using \"" ++ best.algorithm.name ++ "\""⟩

/-- Selects the fastest candidate, while the lock is held. -/
def selectByBenchmark (candidates : List Algorithm) : Selecting (Except Fault Algorithm) :=
  .ask (.note ⟨.info, "Benchmarking all sha256d algorithms ..."⟩) fun _ ↦
    (selectFastest (fun algorithm ↦ .ask (.bench algorithm) .done) candidates).bind fun
      | .error breakdown => .ask .abandon fun _ ↦ .done (.error (.givenUp breakdown))
      | .ok none => .ask .release fun _ ↦ .done (.error .nothingUsable)
      | .ok (some best) => .ask (.note (summaryLine best)) fun _ ↦ settle best.algorithm

/-- Carries out a choice, while the lock is held.  A fixed choice that the processor cannot run is
replaced by the fastest candidate. -/
def select (processor : Processor) (choice : Choice) (candidates : List Algorithm) :
    Selecting (Except Fault Algorithm) :=
  match choice with
  | .fixed algorithm =>
    if algorithm.isAvailable processor then
      .ask (.note ⟨.info, "Using algorithm \"" ++ algorithm.name ++ "\""⟩) fun _ ↦ settle algorithm
    else
      .ask (.note ⟨.warn, "Algorithm \"" ++ algorithm.name ++
        "\" is not available on this CPU, selecting automatically"⟩) fun _ ↦
          selectByBenchmark candidates
  | .fastAuto | .auto => selectByBenchmark candidates

/-- The selected algorithm, which this call selects unless another has. -/
def resolve (processor : Processor) (choice : Choice) (candidates : List Algorithm) :
    Selecting (Except Fault Algorithm) :=
  .ask .read fun
    | some algorithm => .done (.ok algorithm)
    | none =>
      .ask .acquire fun
        | some algorithm => .ask .release fun _ ↦ .done (.ok algorithm)
        | none => select processor choice candidates

/-- What is in the cell. -/
def chosen : Selecting (Option Algorithm) :=
  .ask .read .done

/-- Empties the cell. -/
def reset : Selecting Unit :=
  .ask .acquire fun _ ↦ .ask (.write none) fun _ ↦ .ask .release .done

end Hashwork.Selection
