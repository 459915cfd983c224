import Hashwork.Benchmark.Result
import Hashwork.Clock

/-!
# Measuring in a process of its own

A kernel that uses an instruction the processor lacks ends its process.  So it is measured in a child
process, which writes its sample to a pipe and exits; the supervisor looks for its end again and again,
and kills it when it overruns a deadline.

Child and supervisor are two actors that take one step at a time in any order, while the clock advances as
it likes, and a signal may end the child at any moment.  A write may be delayed, and a look for the child's
end may be interrupted, whenever the system decides so; these decisions come with the steps.
-/

namespace Hashwork.Isolation

/-- What the child does when it runs. -/
inductive Deed where
  /-- It comes to the end of its measurement; there is no sample if a hash was wrong. -/
  | measured (sample : Option Sample)
  | panics
  | exits (status : Int)
  | dies (signal : Nat)
  | hangs
deriving DecidableEq, Repr

/-- The effect of a signal that a process sends to itself and has made no arrangements for. -/
inductive Disposition where
  | fatal
  | harmless
  | stopping
deriving DecidableEq, Repr

/-- Of the signals with an effect, those for writing to a closed pipe, for the end of a child and for a few
notices do no harm, and neither does one that the run-time system takes for a possible stack overflow and
lets pass (7 and 11). -/
def disposition (signal : Int) : Disposition :=
  if signal ∈ ([7, 11, 13, 17, 18, 23, 28, 32, 33] : List Int) then .harmless
  else if signal ∈ ([19, 20, 21, 22] : List Int) then .stopping
  else if 1 ≤ signal ∧ signal ≤ 64 then .fatal
  else .harmless

/-- A child that sends itself a signal, and reports a wrong hash if it survives. -/
def Deed.ofSignal (signal : Int) : Deed :=
  match disposition signal with
  | .fatal => .dies signal.toNat
  | .harmless => .measured none
  | .stopping => .hangs

/-- How a process ended. -/
inductive Ending where
  | exited (status : Nat)
  | killed (signal : Nat)
deriving DecidableEq, Repr

/-- The statuses with which the child says how its measurement went. -/
def statusOk : Nat := 0

def statusWriteFailed : Nat := 1

def statusPanicked : Nat := 2

def statusMismatch : Nat := 3

/-- What the system makes of one attempt to write to the pipe. -/
inductive WriteResult where
  | written
  | wouldBlock
  | interrupted
  | failed
deriving DecidableEq, Repr

inductive Child where
  | unborn
  | acting
  | writing (bytes : Bytes 16) (attempts : Nat)
  | exiting (status : Nat)
  | ended (ending : Ending)
  /-- Its end has been taken notice of, and nothing is left of it. -/
  | gone
deriving DecidableEq

inductive Supervisor where
  | starting
  | forking
  | launched
  | polling (deadline : Instant)
  | watching (deadline : Instant)
  | killing
  | collected (ending : Ending)
  | closing (outcome : BenchOutcome)
  | finished (outcome : BenchOutcome)
  /-- The deadline is later than any clock can show, and the process has given up. -/
  | overflowed

/-- What is given from outside. -/
structure Setup where
  deed : Deed
  timeout : Duration
  writeAttempts : Nat
  /-- Why no pipe can be made. -/
  pipeFault : Option String
  /-- Why no child can be made. -/
  forkFault : Option String
  /-- The system takes notice of a child's end by itself, after which the child cannot be found. -/
  reapsItself : Bool

structure State where
  child : Child
  supervisor : Supervisor
  /-- What is in the pipe. -/
  pipe : Option (Bytes 16)
  /-- Whether the supervisor's process holds the ends of the pipe. -/
  readerOpen : Bool
  writerOpen : Bool
  now : Instant

def State.start (now : Instant) : State where
  child := .unborn
  supervisor := .starting
  pipe := none
  readerOpen := false
  writerOpen := false
  now := now

/-- One step of one actor or of the clock, or a signal that ends the child. -/
inductive Action where
  | child (write : WriteResult)
  | signal (number : Nat)
  | supervisor (interrupted : Bool)
  | tick (d : Duration)
deriving DecidableEq, Repr

def noDescriptors : String := "Too many open files (os error 24)"

def childMissing : String := "No child processes (os error 10)"

/-- Where the child is after it has ended. -/
def Setup.afterEnd (setup : Setup) (ending : Ending) : Child :=
  if setup.reapsItself then .gone else .ended ending

/-- The child's first step: it carries out its deed. -/
def Setup.act (setup : Setup) : Child :=
  match setup.deed with
  | .measured (some sample) =>
    if setup.writeAttempts = 0 then .exiting statusWriteFailed
    else .writing sample.encode setup.writeAttempts
  | .measured none => .exiting statusMismatch
  | .panics => .exiting statusPanicked
  | .exits status => setup.afterEnd (.exited (status % 256).toNat)
  | .dies signal => setup.afterEnd (.killed signal)
  | .hangs => .acting

/-- One attempt to write the sample, of `attempts` that are left. -/
def Child.write (bytes : Bytes 16) (attempts : Nat) : WriteResult → Child
  | .written => .exiting statusOk
  | .failed => .exiting statusWriteFailed
  | .wouldBlock | .interrupted =>
    if attempts ≤ 1 then .exiting statusWriteFailed else .writing bytes (attempts - 1)

def Setup.stepChild (setup : Setup) (result : WriteResult) (s : State) : State :=
  match s.child with
  | .acting => { s with child := setup.act }
  | .writing bytes attempts =>
    { s with
      child := .write bytes attempts result
      pipe := if result = .written then some bytes else s.pipe }
  | .exiting status => { s with child := setup.afterEnd (.exited status) }
  | .unborn | .ended _ | .gone => s

def Child.isRunning : Child → Bool
  | .acting | .writing .. | .exiting _ => true
  | .unborn | .ended _ | .gone => false

/-- What a child's end says about its measurement. -/
def outcomeOf (ending : Ending) (pipe : Option (Bytes 16)) : BenchOutcome :=
  match ending with
  | .killed signal => .error (.crashed signal)
  | .exited status =>
    if status = statusOk then
      match pipe with
      | some bytes => .ok (.decode bytes)
      | none => .error .noResult
    else if status = statusMismatch then .error .mismatch
    else .error (.exited status)

/-- One step of the supervisor.  What it does when a look is interrupted is part of the program.  The wait for a
child that it has killed cannot be interrupted: only a signal that is caught cuts a wait short, and the program
catches none, while the run-time system catches those alone that a thread brings on itself. -/
def Setup.stepSupervisor (setup : Setup) (interrupted : Bool) (s : State) : State :=
  match s.supervisor with
  | .starting =>
    match setup.pipeFault with
    | some text => { s with supervisor := .finished (.error (.io text)) }
    | none => { s with supervisor := .forking, readerOpen := true, writerOpen := true }
  | .forking =>
    match setup.forkFault with
    | some text =>
      { s with
        supervisor := .finished (.error (.io text))
        readerOpen := false
        writerOpen := false }
    | none => { s with supervisor := .launched, child := .acting }
  | .launched =>
    match s.now.add? setup.timeout with
    | some deadline => { s with supervisor := .polling deadline, writerOpen := false }
    | none => { s with supervisor := .overflowed, writerOpen := false }
  | .polling deadline =>
    if interrupted then { s with supervisor := .watching deadline }
    else
      match s.child with
      | .ended ending => { s with supervisor := .collected ending, child := .gone }
      | .gone => { s with supervisor := .closing (.error (.io childMissing)) }
      | _ => { s with supervisor := .watching deadline }
  | .watching deadline =>
    { s with
      supervisor := if deadline.nanos ≤ s.now.nanos then .killing else .polling deadline }
  | .killing => { s with supervisor := .closing (.error (.timedOut setup.timeout)), child := .gone }
  | .collected ending =>
    { s with supervisor := .closing (outcomeOf ending s.pipe) }
  | .closing outcome => { s with supervisor := .finished outcome, readerOpen := false }
  | .finished _ | .overflowed => s

def Setup.step (setup : Setup) (s : State) : Action → State
  | .child result => setup.stepChild result s
  | .signal number =>
    if s.child.isRunning then { s with child := setup.afterEnd (.killed number) } else s
  | .supervisor interrupted => setup.stepSupervisor interrupted s
  | .tick d => { s with now := ⟨s.now.nanos + d.totalNanos⟩ }

def Setup.run (setup : Setup) (now : Instant) (actions : List Action) : State :=
  actions.foldl setup.step (.start now)

/-- How an isolated measurement came out. -/
inductive Result where
  | outcome (outcome : BenchOutcome)
  | overflowed

/-- The text with which the process gives up when the deadline cannot be represented. -/
def overflowMessage : String := "overflow when adding duration to instant"

def State.result? (s : State) : Option Result :=
  match s.supervisor with
  | .finished outcome => some (.outcome outcome)
  | .overflowed => some .overflowed
  | _ => none

/-- The order of steps in which the supervisor looks for the child's end as soon as there is a child, then
leaves it time to get as far as it can, and looks again; if that is in vain too, it looks when the deadline has
passed.  Every write comes out as `write` says. -/
def Setup.plainSchedule (setup : Setup) (write : WriteResult) : List Action :=
  List.replicate 5 (.supervisor false) ++ List.replicate (setup.writeAttempts + 2) (.child write) ++
    List.replicate 4 (.supervisor false) ++ [.tick setup.timeout] ++
    List.replicate 6 (.supervisor false)

/-- How a measurement comes out when the steps are taken in the plain order. -/
def Setup.plainResult (setup : Setup) (now : Instant) (write : WriteResult) : Option Result :=
  (setup.run now (setup.plainSchedule write)).result?

end Hashwork.Isolation
