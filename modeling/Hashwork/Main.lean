import Std.Time.DateTime.Timestamp
import Hashwork.Algorithm.Detection
import Hashwork.CommandLine.Program

/-!
# The program's surroundings

Here the program gets what it asks for from the system.  Kernels are measured in this process, also where
a process of their own is called for; what a measurement would come to there is left to the model of it.
-/

namespace Hashwork.Surroundings

open CommandLine Mining

/-- What an error of the system says. -/
def errorText : IO.Error → String
  | .alreadyExists _ code text | .interrupted _ code text | .noFileOrDirectory _ code text
  | .invalidArgument _ code text | .permissionDenied _ code text | .resourceExhausted _ code text
  | .inappropriateType _ code text | .noSuchThing _ code text | .otherError code text
  | .resourceBusy code text | .resourceVanished code text | .unsupportedOperation code text
  | .hardwareFault code text | .unsatisfiedConstraints code text | .illegalOperation code text
  | .protocolError code text | .timeExpired code text =>
    text ++ " (os error " ++ toString code ++ ")"
  | .unexpectedEof => "unexpected end of file"
  | .userError text => text

/-- What is open while the program runs. -/
structure Desk where
  log : IO.Ref (Option IO.FS.Handle)

def readClock : IO Instant :=
  return ⟨← IO.monoNanosNow⟩

def stamp (line : Log.Line) : IO String := do
  let now ← Std.Time.Timestamp.now
  return line.stamped (now.toSecondsSinceUnixEpoch.val % 86400).toNat

/-- Errors go where errors go, and all other lines to standard output. -/
def logToTerminal (line : Log.Line) : IO Unit := do
  let text ← stamp line
  if line.level = .error then IO.eprintln text else IO.println text

def logToFile (desk : Desk) (line : Log.Line) : IO Unit := do
  if let some file ← desk.log.get then
    file.putStrLn (← stamp line)
    file.flush

def isDirectory (path : String) : IO Bool := do
  try (← IO.FS.realPath path).isDir
  catch _ => return false

/-- The directory that something is in. -/
def directoryOf (path : String) : String :=
  String.ofList ((path.toList.reverse.dropWhile (· != '/')).drop 1).reverse

/-- Makes a directory, unless there is one already. -/
def makeDirectory (path : String) : IO Unit := do
  try IO.FS.createDir path
  catch error => if !(← isDirectory path) then throw error

/-- Makes a directory and those that it is in. -/
partial def makeDirectories (path : String) : IO Unit := do
  try makeDirectory path
  catch
    | error@(.noFileOrDirectory ..) =>
      if directoryOf path = "" then throw error
      makeDirectories (directoryOf path)
      makeDirectory path
    | error => throw error

def createLog (desk : Desk) (directory file : String) : IO (Option String) := do
  try
    makeDirectories directory
    desk.log.set (some (← IO.FS.Handle.mk file .write))
    return none
  catch error => return some (errorText error)

def processor : IO Processor := do
  let description ← try IO.FS.readFile "/proc/cpuinfo" catch _ => pure ""
  return .ofDescription description

def randomBytes : IO (Bytes 80) := do
  let bytes ← IO.getRandomBytes 80
  return Vector.ofFn fun i ↦ bytes.data.getD i.val 0

def measure (kernel : Kernel) (mode : BenchMode) : IO (Option Sample) :=
  (Benchmark.measure kernel mode).run fun _ ↦ readClock

def isolate (harness : Harness) (kernel : Kernel) (mode : BenchMode) : IO Isolation.Result := do
  let setup := harness.setup (.measured (← measure kernel mode))
  return (setup.plainResult (← readClock) .written).getD .overflowed

/-! ## Mining -/

/-- What the threads of a crew share. -/
structure Floor where
  flag : IO.Ref Bool
  tally : IO.Ref Nat
  channel : IO.Ref (List Share)
  working : IO.Ref Nat
  progress : IO.Ref Progress
  note : Log.Line → IO Unit

def answerWorker (floor : Floor) : (e : Worker.Event) → IO e.Answer
  | .readFlag => floor.flag.get
  | .send share => do
    floor.channel.modify (· ++ [share])
    return true
  | .note line => floor.note line
  | .tally nonces => floor.tally.modify (· + nonces)

partial def work (floor : Floor) (scanner : Scanner) (finish : Nat) (item : WorkItem) : IO Unit := do
  match ← (Worker.turn scanner finish item).run (answerWorker floor) with
  | .again item => work floor scanner finish item
  | .last _ => return ()

/-- Waits up to so many hundredths of a second for a share. -/
def receive (floor : Floor) : Nat → IO Collector.Received
  | 0 => return .nothing
  | waits + 1 => do
    let working ← floor.working.get
    match ← floor.channel.modifyGet fun shares ↦ (shares.head?, shares.tail) with
    | some share => return .share share
    | none =>
      if working = 0 then return .closed
      IO.sleep 10
      receive floor waits

def answerCollector (floor : Floor) : (e : Collector.Event) → IO e.Answer
  | .receive => receive floor 100
  | .readClock => readClock
  | .readFlag => floor.flag.get
  | .raiseFlag => floor.flag.set true
  | .note line => floor.note line
  | .takeTally => floor.tally.modifyGet fun nonces ↦ (nonces, 0)
  | .reportShare share => do
    let (progress, line) := (← floor.progress.get).reportShare share
    floor.progress.set progress
    floor.note line
    if ← (← IO.getStderr).isTty then IO.eprintln (progress.printed share)
  | .reportSpeed rate => floor.progress.modify (·.reportSpeed rate)

partial def collect (floor : Floor) (deadline : Option Instant) : Collector.Turn → IO Nat
  | .last total => return total
  | .again started total => do
    collect floor deadline
      (← (Collector.turn deadline started total).run (answerCollector floor))

def mine (job : Mining.Job) (note : Log.Line → IO Unit) : IO Nat := do
  let threads := job.miner.threads
  let floor : Floor :=
    { flag := ← IO.mkRef false
      tally := ← IO.mkRef 0
      channel := ← IO.mkRef []
      working := ← IO.mkRef threads
      progress := ← IO.mkRef .start
      note := note }
  for i in [0:threads] do
    let portion := Mining.portion threads i
    let item := job.item.withNextNonce portion.first
    let worker : IO Unit := do
      try work floor job.miner.scanner portion.finish item
      finally floor.working.modify (· - 1)
    let _ ← IO.asTask worker .dedicated
  collect floor job.deadline
    (← (Collector.begin job.deadline).run (answerCollector floor))

/-! ## The program -/

def noteTo (desk : Desk) (listeners : Listeners) (line : Log.Line) : IO Unit := do
  if Listeners.takes listeners.terminal line then logToTerminal line
  if Listeners.takes listeners.file line then logToFile desk line

def answer (desk : Desk) : (e : Program.Event) → IO e.Answer
  | .environment => return ⟨← IO.getEnv "XDG_DATA_HOME", ← IO.getEnv "HOME"⟩
  | .processor => processor
  | .randomBytes => randomBytes
  | .readClock => readClock
  | .createLog directory file => createLog desk directory file
  | .logToTerminal line => logToTerminal line
  | .logToFile line => logToFile desk line
  | .print text => IO.println text
  | .printError text => IO.eprintln text
  | .measure kernel mode => measure kernel mode
  | .isolate harness kernel mode => isolate harness kernel mode
  | .mine job listeners => mine job (noteTo desk listeners)

end Hashwork.Surroundings

def main (arguments : List String) : IO UInt32 := do
  let desk : Hashwork.Surroundings.Desk := ⟨← IO.mkRef none⟩
  (Hashwork.CommandLine.Program.start arguments).run (Hashwork.Surroundings.answer desk)
