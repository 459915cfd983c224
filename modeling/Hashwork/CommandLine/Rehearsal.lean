import Hashwork.Benchmark.Rehearsal
import Hashwork.CommandLine.Program

/-!
# The program on a described system

What the program prints and logs can be found out without a terminal and a file.  Benchmarks go by the
steady clock, the time does not pass, and mining comes to nothing.
-/

namespace Hashwork.CommandLine

structure System where
  environment : Environment
  processor : Processor
  /-- Why no log file can be made. -/
  logFault : Option String
  /-- Why no pipe can be made. -/
  pipeFault : Option String

/-- What the program has written so far. -/
structure Console where
  terminal : List Log.Line
  file : Option (List Log.Line)
  output : List String
  errors : List String
deriving DecidableEq, Repr

def Console.empty : Console := ⟨[], none, [], []⟩

namespace Program

def answerOn (system : System) : (e : Event) → StateM Console e.Answer
  | .environment => return system.environment
  | .processor => return system.processor
  | .randomBytes => return Vector.replicate 80 0
  | .readClock => return ⟨0⟩
  | .createLog .. => do
    if system.logFault.isNone then modify fun c ↦ { c with file := some [] }
    return system.logFault
  | .logToTerminal line => modify fun c ↦ { c with terminal := c.terminal ++ [line] }
  | .logToFile line => modify fun c ↦ { c with file := c.file.map (· ++ [line]) }
  | .print text => modify fun c ↦ { c with output := c.output ++ [text] }
  | .printError text => modify fun c ↦ { c with errors := c.errors ++ [text] }
  | .measure kernel mode => return Harness.measureSteadily kernel mode
  | .isolate harness kernel mode => return harness.isolateSteadily system.pipeFault kernel mode
  | .mine .. => return 0

/-- The result of a part of the program, and what it has written. -/
def rehearse {α : Type} (system : System) (running : Running α) : α × Console :=
  (running.run (answerOn system)).run .empty

end Program

end Hashwork.CommandLine
