import Hashwork.CommandLine.Grammar
import Hashwork.Mining.Miner
import Hashwork.Text.Whole

/-!
# What can be asked of the program

There are three commands, to show what the processor offers, to benchmark, and to mine, and one that shows
help on a command.
-/

namespace Hashwork.CommandLine

inductive Request where
  | info
  | bench (thorough json : Bool) (config : BenchConfig)
  | mine (config : MinerConfig) (header : Option Header) (bits : Word) (seconds : UInt64)

structure Options where
  verbose : Bool
  request : Request

/-! ## The flags and settings -/

def verboseFlag : Flag := ⟨"verbose", some 'v', "Log debug messages to the terminal"⟩

def thoroughFlag : Flag :=
  ⟨"thorough", none, "Hash 4194304 nonces per kernel rather than 256"⟩

def jsonFlag : Flag := ⟨"json", none, "Print results as JSON"⟩

def isolateAllFlag : Flag :=
  ⟨"isolate-all", none,
    "Run every benchmark in a child process, including kernels that can't fault on unsupported hardware"⟩

def benchTimeoutSetting : Setting :=
  ⟨"bench-timeout", none, some "60", "Seconds to wait for a benchmark before killing it"⟩

def algoSetting : Setting :=
  ⟨"algo", some 'a', some "fastauto",
    "Hashing algorithm. \"fastauto\" and \"auto\" benchmark every available kernel with a quick or " ++
      "thorough run and use the fastest; any other value names a kernel listed by the info command"⟩

def cpuThreadsSetting : Setting :=
  ⟨"cpu-threads", some 't', none, "Number of CPU mining threads, defaults to one per logical CPU"⟩

def headerSetting : Setting :=
  ⟨"header", none, none, "Block header to mine, as 160 hex digits. Random if not set"⟩

def bitsSetting : Setting :=
  ⟨"bits", none, some "1f00ffff", "Compact-encoded share target, in hex"⟩

def secondsSetting : Setting :=
  ⟨"seconds", none, some "10", "Stop after this many seconds"⟩

/-! ## The commands -/

def programName : String := "shaforge"

def version : String := "0.4.0"

def infoGrammar : Grammar where
  name := [programName, "info"]
  about := "Show this CPU's threads and supported kernels"
  flags := [verboseFlag]
  settings := []
  commands := []

def benchGrammar : Grammar where
  name := [programName, "bench"]
  about := "Benchmark every available SHA-256d kernel"
  flags := [isolateAllFlag, jsonFlag, thoroughFlag, verboseFlag]
  settings := [benchTimeoutSetting]
  commands := []

def mineGrammar : Grammar where
  name := [programName, "mine"]
  about := "Mine synthetic work with the selected kernel"
  flags := [isolateAllFlag, verboseFlag]
  settings := [algoSetting, benchTimeoutSetting, bitsSetting, cpuThreadsSetting, headerSetting,
    secondsSetting]
  commands := []

def helpGrammar : Grammar where
  name := [programName, "help"]
  about := "Prints this message or the help of the given subcommand(s)"
  flags := []
  settings := []
  commands := []

def grammar : Grammar where
  name := [programName]
  about := "SHA-256d proof-of-work CPU hashing engine"
  flags := [verboseFlag]
  settings := []
  commands := [infoGrammar, benchGrammar, mineGrammar, helpGrammar].map fun command ↦
    (command.name.getLastD "", command.about)

/-- The grammar of the command of this name. -/
def commandGrammar? : String → Option Grammar
  | "info" => some infoGrammar
  | "bench" => some benchGrammar
  | "mine" => some mineGrammar
  | "help" => some helpGrammar
  | _ => none

/-! ## The values -/

def parseWhole (base limit : Nat) (text : String) : Except String Nat :=
  (Text.Whole.parse base limit text).mapError Text.Whole.Fault.message

def parseCount (text : String) : Except String Nat :=
  parseWhole 10 UInt64.size text

/-- Drops every `0x` at the front of a text. -/
def dropHexMarks : List Char → List Char
  | '0' :: 'x' :: rest => dropHexMarks rest
  | text => text

def parseBits (text : String) : Except String Word :=
  (parseWhole 16 UInt32.size (String.ofList (dropHexMarks text.toList))).map Nat.toUInt32

def parseChoice (text : String) : Except String Choice :=
  (Choice.parse text).mapError Algorithm.NameFault.message

def parseHeader (text : String) : Except String Header :=
  (Header.parse text).mapError FormatFault.message

/-! ## Reading requests -/

def orStop {α : Type} (grammar : Grammar) (result : Except Fault α) : Except Stop α :=
  result.mapError (.fault grammar ·)

def readBench (given : Given) : Except Fault BenchConfig := do
  let timeout ← given.readSetting benchTimeoutSetting parseCount
  let isolateAll ← given.readFlag isolateAllFlag
  return ⟨(timeout.getD 60).toUInt64, isolateAll⟩

def readInfo (given : Given) : Except Fault (Request × Bool) := do
  return (.info, ← given.readFlag verboseFlag)

def readBenchRequest (given : Given) : Except Fault (Request × Bool) := do
  let thorough ← given.readFlag thoroughFlag
  let json ← given.readFlag jsonFlag
  let config ← readBench given
  return (.bench thorough json config, ← given.readFlag verboseFlag)

def readMine (given : Given) : Except Fault (Request × Bool) := do
  let choice ← given.readSetting algoSetting parseChoice
  let threads ← given.readSetting cpuThreadsSetting parseCount
  let bench ← readBench given
  let header ← given.readSetting headerSetting parseHeader
  let bits ← given.readSetting bitsSetting parseBits
  let seconds ← given.readSetting secondsSetting parseCount
  let config : MinerConfig := ⟨choice.getD .fastAuto, threads, bench⟩
  return (.mine config header (bits.getD 0) (seconds.getD 10).toUInt64,
    ← given.readFlag verboseFlag)

/-- A request with its arguments, and whether it asks for debug messages. -/
def readRequest (grammar : Grammar) (read : Given → Except Fault (Request × Bool))
    (arguments : List String) : Except Stop (Request × Bool) := do
  let (reading, _) ← grammar.take arguments .start
  orStop grammar (read (← grammar.finish reading))

/-- The help that is asked for by the name of a command.  Only one name makes sense. -/
def readHelp : List String → Stop
  | [] => .help grammar
  | [name] =>
    match commandGrammar? name with
    | some command => .help command
    | none => .fault grammar (.unknownCommand name)
  | name :: next :: _ =>
    .fault grammar (.unknownCommand (if (commandGrammar? name).isSome then next else name))

def readCommand (name : String) (arguments : List String) : Except Stop (Request × Bool) :=
  match name with
  | "info" => readRequest infoGrammar readInfo arguments
  | "bench" => readRequest benchGrammar readBenchRequest arguments
  | "mine" => readRequest mineGrammar readMine arguments
  | _ => .error (readHelp arguments)

/-- Reads the arguments of the program.  The faults of a command come before those in front of it. -/
def Options.parse (arguments : List String) : Except Stop Options := do
  let (reading, command) ← grammar.take arguments .start
  match command with
  | none => .error (.missingCommand grammar)
  | some (name, rest) =>
    let (request, verbose) ← readCommand name rest
    let verboseBefore ← orStop grammar (reading.given.readFlag verboseFlag)
    return ⟨verboseBefore || verbose, request⟩

end Hashwork.CommandLine
