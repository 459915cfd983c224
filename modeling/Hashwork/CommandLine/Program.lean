import Hashwork.CommandLine.Help
import Hashwork.Mining.Crew
import Hashwork.Selection.Alone

/-!
# The program

The program reads its arguments, starts logging, and carries out the request.  Log lines go to the terminal
and to a file in the user's data directory, to each from a level of its own upwards.  If the file cannot be
made there is no log at all, and the program goes on.

The program is a routine; what it asks for is left to whoever runs it.
-/

namespace Hashwork.CommandLine

/-- What the program learns from its environment. -/
structure Environment where
  dataHome : Option String
  home : Option String
deriving DecidableEq, Repr

/-- The user's data directory.  A relative one is as good as none. -/
def Environment.dataDirectory? (environment : Environment) : Option String :=
  match environment.dataHome.filter (·.startsWith "/") with
  | some directory => some directory
  | none => (environment.home.filter (· != "")).map (· ++ "/.local/share")

/-- From which level upwards log lines are wanted, on the terminal and in the file. -/
structure Listeners where
  terminal : Option Log.Level
  file : Option Log.Level
deriving DecidableEq, Repr

namespace Program

inductive Event where
  | environment
  | processor
  /-- Any 80 bytes. -/
  | randomBytes
  | readClock
  /-- Makes a file in a directory, which is made if need be; the answer is why that failed. -/
  | createLog (directory file : String)
  | logToTerminal (line : Log.Line)
  | logToFile (line : Log.Line)
  | print (text : String)
  | printError (text : String)
  | measure (kernel : Kernel) (mode : BenchMode)
  | isolate (harness : Harness) (kernel : Kernel) (mode : BenchMode)
  /-- Mines until the job is done, and answers with the number of nonces. -/
  | mine (job : Mining.Job) (listeners : Listeners)

abbrev Event.Answer : Event → Type
  | .environment => Environment
  | .processor => Processor
  | .randomBytes => Bytes 80
  | .readClock => Instant
  | .createLog .. => Option String
  | .measure .. => Option Sample
  | .isolate .. => Isolation.Result
  | .mine .. => Nat
  | .logToTerminal _ | .logToFile _ | .print _ | .printError _ => Unit

abbrev Running := Routine Event Event.Answer

def ask (event : Event) : Running event.Answer :=
  Routine.request event

end Program

open Program

namespace Listeners

def silent : Listeners := ⟨none, none⟩

def takes (least : Option Log.Level) (line : Log.Line) : Bool :=
  least.any fun level ↦ line.reaches level

def note (listeners : Listeners) (line : Log.Line) : Running Unit := do
  if takes listeners.terminal line then ask (.logToTerminal line)
  if takes listeners.file line then ask (.logToFile line)

end Listeners

namespace Program

/-! ## Logging -/

def logDirectory (dataDirectory : String) : String :=
  dataDirectory ++ "/" ++ programName

def logFile (dataDirectory : String) : String :=
  logDirectory dataDirectory ++ "/" ++ programName ++ ".log"

def startLogging (verbose : Bool) : Running Listeners := do
  let terminal : Log.Level := if verbose then .debug else .info
  let environment : Environment ← ask .environment
  match environment.dataDirectory? with
  | none => return ⟨some terminal, none⟩
  | some directory =>
    let fault : Option String ← ask (.createLog (logDirectory directory) (logFile directory))
    match fault with
    | none => return ⟨some terminal, some .debug⟩
    | some fault =>
      ask (.printError ("Failed to initialize logging: IO error: " ++ fault))
      return .silent

/-! ## Benchmarks -/

def answerHarness (listeners : Listeners) (harness : Harness) :
    (e : Harness.Event) → Running e.Answer
  | .note line => listeners.note line
  | .measure kernel mode => ask (.measure kernel mode)
  | .isolate kernel mode => ask (.isolate harness kernel mode)

def benchmark (listeners : Listeners) (harness : Harness) (processor : Processor)
    (mode : BenchMode) (algorithm : Algorithm) : Running (Attempt BenchResult) :=
  (harness.benchmark processor algorithm mode).run (answerHarness listeners harness)

/-- Benchmarks one algorithm after the other. -/
def benchmarkEach (bench : Algorithm → Running (Attempt BenchResult)) :
    List Algorithm → Running (Attempt (List BenchResult))
  | [] => return .ok []
  | algorithm :: rest => do
    match ← bench algorithm with
    | .error breakdown => return .error breakdown
    | .ok result => return (← benchmarkEach bench rest).map (result :: ·)

/-- What is printed about results: a document, or a table with the fastest below it. -/
def resultLines (json : Bool) (results : List BenchResult) : List String :=
  if json then BenchResult.jsonLines results
  else
    results.map BenchResult.row ++
      match Selection.fastest results with
      | some best => ["Fastest: " ++ best.algorithm.name]
      | none => []

def printLines : List String → Running Unit
  | [] => return ()
  | line :: rest => do
    ask (.print line)
    printLines rest

def bench (listeners : Listeners) (thorough json : Bool) (config : BenchConfig) :
    Running (Attempt Unit) := do
  let processor : Processor ← ask .processor
  let mode : BenchMode := if thorough then .thorough else .quick
  match ← benchmarkEach (benchmark listeners (.ofConfig config) processor mode)
    processor.candidates with
  | .error breakdown => return .error breakdown
  | .ok results =>
    printLines (resultLines json results)
    return .ok ()

/-! ## Mining -/

/-- The item to mine.  It is hashed by scrypt if that is the configured algorithm. -/
def itemFor (choice : Choice) (header : Header) (bits : Word) : WorkItem :=
  let item := WorkItem.ofHeader header (.ofCompact bits) ⟨0⟩
  if choice = .fixed .scrypt then item.withPow .scrypt else item

def headerOr : Option Header → Running Header
  | some header => return header
  | none => do
    let bytes : Bytes 80 ← ask .randomBytes
    return Header.withNonce ⟨bytes⟩ 0

/-- The miner of a fresh process, in which no algorithm has been selected. -/
def minerFor (listeners : Listeners) (processor : Processor) (config : MinerConfig) :
    Running (Attempt Miner) :=
  Prod.fst <$> Selection.alone
    (benchmark listeners (.ofConfig config.bench) processor config.choice.mode) listeners.note
    (Miner.ofConfig processor config) none

def mine (listeners : Listeners) (config : MinerConfig) (header : Option Header) (bits : Word)
    (seconds : UInt64) : Running (Attempt Unit) := do
  let item := itemFor config.choice (← headerOr header) bits
  listeners.note
    ⟨.info, "Mining " ++ item.header.text ++ " for target " ++ item.target.text⟩
  let processor : Processor ← ask .processor
  match ← minerFor listeners processor config with
  | .error breakdown => return .error breakdown
  | .ok miner =>
    listeners.note ⟨.info, "Starting " ++ miner.text⟩
    let started : Instant ← ask .readClock
    match started.add? (.ofSeconds seconds) with
    | none => return .error ⟨Isolation.overflowMessage⟩
    | some deadline =>
      let nonces : Nat ← ask (.mine ⟨miner, item, some deadline⟩ listeners)
      let ended : Instant ← ask .readClock
      listeners.note ⟨.info, "Hashed " ++ toString nonces ++ " nonces in " ++
        (ended.since started).roundedText 1⟩
      return .ok ()

/-! ## The whole program -/

def perform (listeners : Listeners) : Request → Running (Attempt Unit)
  | .info => do
    let processor : Processor ← ask .processor
    printLines processor.summary
    return .ok ()
  | .bench thorough json config => bench listeners thorough json config
  | .mine config header bits seconds =>
    if seconds = 0 then do
      listeners.note ⟨.warn, "Nothing to do for zero seconds"⟩
      return .ok ()
    else mine listeners config header bits seconds

def printErrorLines : List String → Running Unit
  | [] => return ()
  | line :: rest => do
    ask (.printError line)
    printErrorLines rest

/-- The exit status of a process that was given up. -/
def brokenDown : UInt32 := 101

/-- Runs the program with its arguments; the result is the exit status. -/
def start (arguments : List String) : Running UInt32 := do
  match Options.parse arguments with
  | .error stop =>
    if stop.isFault then
      printErrorLines stop.lines
      return 1
    else
      printLines stop.lines
      return 0
  | .ok options =>
    let listeners ← startLogging options.verbose
    match ← perform listeners options.request with
    | .ok () => return 0
    | .error breakdown =>
      ask (.printError breakdown.message)
      return brokenDown

end Program

end Hashwork.CommandLine
