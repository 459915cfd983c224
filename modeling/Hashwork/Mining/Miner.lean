import Hashwork.Scan.Basic
import Hashwork.Selection.Cell

/-!
# Miners

A miner is a scanner and a number of threads.  Its algorithm is the one in the cell; if it is the first to
ask, its own choice decides.
-/

namespace Hashwork

/-- What a user may set about mining. -/
structure MinerConfig where
  choice : Choice
  /-- By default there is one thread for each that the processor has. -/
  threads : Option Nat
  bench : BenchConfig
deriving DecidableEq, Repr

/-- The scanner for what became of a choice. -/
def Scanner.ofResolved (processor : Processor) :
    Except Selection.Fault Algorithm → Logging (Attempt Scanner)
  | .ok algorithm => (announce processor algorithm).bind fun scanner ↦ .done (.ok scanner)
  | .error (.givenUp breakdown) => .done (.error breakdown)
  | .error .nothingUsable =>
    (Log.note .error Selection.Fault.nothingUsable.message).bind fun _ ↦ .done (.ok unavailable)

/-- The scanner for a choice, which is resolved first. -/
def Scanner.ofChoice (processor : Processor) (choice : Choice) :
    Selection.Selecting (Attempt Scanner) :=
  (Selection.resolve processor choice processor.candidates).bind fun resolved ↦
    (ofResolved processor resolved).embed Selection.Event.note fun _ answer ↦ answer

structure Miner where
  threads : Nat
  scanner : Scanner

namespace Miner

/-- There is at least one thread. -/
def ofConfig (processor : Processor) (config : MinerConfig) :
    Selection.Selecting (Attempt Miner) :=
  (Scanner.ofChoice processor config.choice).bind fun attempt ↦
    .done (attempt.map fun scanner ↦ ⟨max (config.threads.getD processor.threads) 1, scanner⟩)

def text (miner : Miner) : String :=
  "CPU [" ++ toString miner.threads ++ "x " ++
    (match miner.scanner.algorithm with
      | some algorithm => algorithm.name
      | none => "unavailable") ++ "]"

end Miner

end Hashwork
