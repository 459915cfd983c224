import Hashwork.Selection.Cell

/-!
# Several callers of one cell

Any number of callers use the same cell at the same time.  They take their steps one at a time in any order,
and a caller that has to wait for the lock takes none.  What a benchmark comes to is decided outside and
comes with the step.

The history records what the callers did that others can tell, latest first.
-/

namespace Hashwork.Selection

inductive Call where
  | resolve (choice : Choice) (candidates : List Algorithm)
  | chosen
  | reset

inductive Reply where
  | resolved (result : Except Fault Algorithm)
  | chosen (content : Option Algorithm)
  | emptied

def Call.routine (processor : Processor) : Call → Selecting Reply
  | .resolve choice candidates => (Selection.resolve processor choice candidates).bind fun result ↦
      .done (.resolved result)
  | .chosen => Selection.chosen.bind fun content ↦ .done (.chosen content)
  | .reset => Selection.reset.bind fun _ ↦ .done .emptied

inductive Happening where
  | called (call : Call)
  | benchmarked (algorithm : Algorithm)
  | noted (line : Log.Line)
  | wrote (content : Option Algorithm)
  | returned (reply : Reply)

structure Arena where
  cell : Option Algorithm
  /-- The caller that holds the lock for writing. -/
  holder : Option Nat
  /-- Whether a holder of the lock was given up. -/
  marked : Bool
  /-- What is left to do of the call that each caller is in. -/
  calls : Nat → Option (Selecting Reply)
  history : List (Nat × Happening)

namespace Arena

def fresh : Arena where
  cell := none
  holder := none
  marked := false
  calls _ := none
  history := []

def record (arena : Arena) (caller : Nat) (happening : Happening) : Arena :=
  { arena with history := (caller, happening) :: arena.history }

/-- Leaves a caller with `rest` to do. -/
def goOn (arena : Arena) (caller : Nat) (rest : Option (Selecting Reply)) : Arena :=
  { arena with calls := fun i ↦ if i = caller then rest else arena.calls i }

inductive Action where
  | call (caller : Nat) (call : Call)
  /-- One step of a caller; if it is a benchmark, it comes to `result`. -/
  | step (caller : Nat) (result : Attempt BenchResult)

/-- One step of a caller that has `rest` to do. -/
def advance (arena : Arena) (caller : Nat) (result : Attempt BenchResult) :
    Selecting Reply → Arena
  | .done reply => (arena.goOn caller none).record caller (.returned reply)
  | .ask .read next =>
    if arena.holder = none then arena.goOn caller (some (next arena.cell)) else arena
  | .ask .acquire next =>
    if arena.holder = none then
      { arena.goOn caller (some (next arena.cell)) with holder := some caller }
    else arena
  | .ask (.bench algorithm) next =>
    (arena.goOn caller (some (next result))).record caller (.benchmarked algorithm)
  | .ask (.note line) next =>
    (arena.goOn caller (some (next ()))).record caller (.noted line)
  | .ask (.write content) next =>
    { (arena.goOn caller (some (next ()))).record caller (.wrote content) with cell := content }
  | .ask .release next => { arena.goOn caller (some (next ())) with holder := none }
  | .ask .abandon next =>
    { arena.goOn caller (some (next ())) with holder := none, marked := true }

/-- A caller that is in a call makes no other one. -/
def step (processor : Processor) (arena : Arena) : Action → Arena
  | .call caller call =>
    match arena.calls caller with
    | some _ => arena
    | none => (arena.goOn caller (some (call.routine processor))).record caller (.called call)
  | .step caller result =>
    match arena.calls caller with
    | some rest => arena.advance caller result rest
    | none => arena

def run (processor : Processor) (arena : Arena) (actions : List Action) : Arena :=
  actions.foldl (step processor) arena

/-- The algorithm that a caller is about to benchmark. -/
def benchmarks? (arena : Arena) (caller : Nat) : Option Algorithm :=
  match arena.calls caller with
  | some (.ask (.bench algorithm) _) => some algorithm
  | _ => none

/-- A step of a caller, whose benchmarks come out as `bench` says. -/
def stepWith (processor : Processor) (bench : Algorithm → Attempt BenchResult) (arena : Arena)
    (caller : Nat) : Arena :=
  arena.step processor <| .step caller <|
    match arena.benchmarks? caller with
    | some algorithm => bench algorithm
    | none => .error ⟨""⟩

/-- So many rounds, in each of which all of the first `callers` take a step. -/
def rounds (processor : Processor) (bench : Algorithm → Attempt BenchResult) (callers : Nat) :
    Nat → Arena → Arena
  | 0, arena => arena
  | n + 1, arena =>
    rounds processor bench callers n
      ((List.range callers).foldl (stepWith processor bench) arena)

/-- What the callers did, in order. -/
def events (arena : Arena) : List (Nat × Happening) :=
  arena.history.reverse

def lines (arena : Arena) : List Log.Line :=
  arena.events.filterMap fun
    | (_, .noted line) => some line
    | _ => none

def benchmarked (arena : Arena) : List Algorithm :=
  arena.events.filterMap fun
    | (_, .benchmarked algorithm) => some algorithm
    | _ => none

/-- What a caller's calls have returned, in order. -/
def replies (arena : Arena) (caller : Nat) : List Reply :=
  arena.events.filterMap fun
    | (i, .returned reply) => if i = caller then some reply else none
    | _ => none

end Arena

end Hashwork.Selection
