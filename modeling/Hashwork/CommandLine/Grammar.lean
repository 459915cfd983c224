import Hashwork.Text.Similarity

/-!
# Reading arguments

A command takes flags, settings that have a value, and in one place the name of another command, to which
all later arguments belong.  An argument with two hyphens names one flag or setting in full; an argument
with one hyphen is a row of letters, of which each is a flag and the last may be a setting with its value
behind it.  A value may also follow an equals sign, or be the next argument, unless that has a hyphen in front
of something else.  After two hyphens alone nothing is a flag or a setting any more.

Errors in the values are found last, when all arguments have been read.
-/

namespace Hashwork.CommandLine

structure Flag where
  long : String
  short : Option Char
  about : String
deriving DecidableEq, Repr

structure Setting where
  long : String
  short : Option Char
  /-- The value that is taken if none is given. -/
  fallback : Option String
  about : String
deriving DecidableEq, Repr

structure Grammar where
  /-- The program, and the command if there is one. -/
  name : List String
  about : String
  flags : List Flag
  settings : List Setting
  /-- The commands that may follow, each with what it does. -/
  commands : List (String × String)
deriving DecidableEq, Repr

inductive Fault where
  | unknownArgument (shown : String)
  | misspelledCommand (name meant : String)
  | unknownCommand (name : String)
  | missingValue (shown : String)
  | repeated (shown : String)
  | invalidValue (shown reason : String)
deriving DecidableEq, Repr

/-- The first line of what is said about a fault. -/
def Fault.message : Fault → String
  | unknownArgument shown => "error: Found argument '" ++ shown ++
    "' which wasn't expected, or isn't valid in this context"
  | misspelledCommand name _ | unknownCommand name =>
    "error: The subcommand '" ++ name ++ "' wasn't recognized"
  | missingValue shown => "error: The argument '" ++ shown ++
    "' requires a value but none was supplied"
  | repeated shown => "error: The argument '" ++ shown ++
    "' was provided more than once, but cannot be used multiple times"
  | invalidValue shown reason => "error: Invalid value for '" ++ shown ++ "': " ++ reason

/-- Why arguments are not carried out. -/
inductive Stop where
  | help (grammar : Grammar)
  | version (grammar : Grammar)
  | missingCommand (grammar : Grammar)
  | fault (grammar : Grammar) (fault : Fault)
deriving DecidableEq, Repr

def Flag.shown (flag : Flag) : String :=
  "--" ++ flag.long

def Setting.shown (setting : Setting) : String :=
  "--" ++ setting.long ++ " <" ++ setting.long ++ ">"

/-- Two flags that every command has. -/
def helpFlag : Flag := ⟨"help", some 'h', "Prints help information"⟩

def versionFlag : Flag := ⟨"version", some 'V', "Prints version information"⟩

/-- What was given, latest first, and each time that it was. -/
structure Given where
  flags : List Flag
  settings : List (Setting × Option String)
deriving DecidableEq, Repr

namespace Given

def empty : Given := ⟨[], []⟩

def addFlag (given : Given) (flag : Flag) : Given :=
  { given with flags := flag :: given.flags }

def addSetting (given : Given) (setting : Setting) (value : Option String) : Given :=
  { given with settings := (setting, value) :: given.settings }

def count (given : Given) (flag : Flag) : Nat :=
  given.flags.count flag

/-- The values given for a setting, in order; `none` where the value was left out. -/
def occurrences (given : Given) (setting : Setting) : List (Option String) :=
  (given.settings.filter fun (other, _) ↦ other == setting).reverse.map Prod.snd

/-- The values of a setting, with its fallback in place of none at all. -/
def values (given : Given) (setting : Setting) : List String :=
  match (given.occurrences setting).filterMap id with
  | [] => setting.fallback.toList
  | found => found

/-- Whether a flag was given. -/
def readFlag (given : Given) (flag : Flag) : Except Fault Bool :=
  if given.count flag ≤ 1 then .ok (given.count flag == 1) else .error (.repeated flag.shown)

/-- The value of a setting.  Every value that was given has to be valid, even if there are too many. -/
def readSetting {α : Type} (given : Given) (setting : Setting)
    (parse : String → Except String α) : Except Fault (Option α) := do
  let occurrences := given.occurrences setting
  let values := given.values setting
  if !occurrences.isEmpty && values.isEmpty then .error (.missingValue setting.shown)
  let parsed ← values.mapM fun value ↦ (parse value).mapError (.invalidValue setting.shown ·)
  if occurrences.length > 1 then .error (.repeated setting.shown)
  return parsed.head?

end Given

/-- How far the arguments of a command have been read. -/
structure Reading where
  given : Given
  /-- A setting that may find its value in the next argument. -/
  pending : Option Setting
  /-- Whether two hyphens alone have been read. -/
  literal : Bool
deriving DecidableEq, Repr

namespace Reading

def start : Reading := ⟨.empty, none, false⟩

/-- Gives up waiting for a value. -/
def settle (reading : Reading) : Reading :=
  match reading.pending with
  | some setting => { reading with given := reading.given.addSetting setting none, pending := none }
  | none => reading

def addFlag (reading : Reading) (flag : Flag) : Reading :=
  { reading with given := reading.given.addFlag flag }

/-- A setting with its value, if it has been found already. -/
def addSetting (reading : Reading) (setting : Setting) : Option String → Reading
  | some value => { reading with given := reading.given.addSetting setting (some value) }
  | none => { reading with pending := some setting }

end Reading

def dropEquals (text : List Char) : List Char :=
  text.dropWhile (· == '=')

namespace Grammar

def flagByName? (grammar : Grammar) (name : String) : Option Flag :=
  (helpFlag :: versionFlag :: grammar.flags).find? (·.long == name)

def flagByLetter? (grammar : Grammar) (letter : Char) : Option Flag :=
  (helpFlag :: versionFlag :: grammar.flags).find? (·.short == some letter)

def settingByName? (grammar : Grammar) (name : String) : Option Setting :=
  grammar.settings.find? (·.long == name)

def settingByLetter? (grammar : Grammar) (letter : Char) : Option Setting :=
  grammar.settings.find? (·.short == some letter)

def refuse {α : Type} (grammar : Grammar) (fault : Fault) : Except Stop α :=
  .error (.fault grammar fault)

/-- A flag that is read at once, if it is one of those that every command has. -/
def takeFlag (grammar : Grammar) (flag : Flag) (reading : Reading) : Except Stop Reading :=
  if flag = helpFlag then .error (.help grammar)
  else if flag = versionFlag then .error (.version grammar)
  else .ok (reading.addFlag flag)

/-- An argument with two hyphens.  A value given to a flag is ignored. -/
def takeLong (grammar : Grammar) (argument : List Char) (reading : Reading) :
    Except Stop Reading :=
  let text := argument.dropWhile (· == '-')
  let name := String.ofList (text.takeWhile (· != '='))
  let value :=
    match text.dropWhile (· != '=') with
    | [] => none
    | _ :: value => some (String.ofList (dropEquals value))
  match grammar.settingByName? name with
  | some setting => .ok (reading.addSetting setting value)
  | none =>
    match grammar.flagByName? name with
    | some flag => grammar.takeFlag flag reading
    | none => grammar.refuse (.unknownArgument ("--" ++ name))

/-- A row of letters after one hyphen. -/
def takeLetters (grammar : Grammar) : List Char → Reading → Except Stop Reading
  | [], reading => .ok reading
  | letter :: rest, reading =>
    match grammar.settingByLetter? letter with
    | some setting =>
      .ok (reading.addSetting setting
        (if rest.isEmpty then none else some (String.ofList (dropEquals rest))))
    | none =>
      match grammar.flagByLetter? letter with
      | some flag => do grammar.takeLetters rest (← grammar.takeFlag flag reading)
      | none => grammar.refuse (.unknownArgument (String.ofList ['-', letter]))

/-- An argument that is neither a flag nor a setting nor a value nor a command. -/
def refuseArgument {α : Type} (grammar : Grammar) (argument : String) : Except Stop α :=
  match Text.Similarity.closest? argument (grammar.commands.map Prod.fst) with
  | some meant => grammar.refuse (.misspelledCommand argument meant)
  | none => grammar.refuse (.unknownArgument argument)

/-- Reads arguments up to the name of a command; the answer holds that name and what follows it. -/
def take (grammar : Grammar) : List String → Reading →
    Except Stop (Reading × Option (String × List String))
  | [], reading => .ok (reading, none)
  | argument :: rest, reading =>
    let chars := argument.toList
    if reading.literal then grammar.refuseArgument argument
    else if chars = ['-', '-'] then grammar.take rest { reading with literal := true }
    else if reading.pending.isNone && (grammar.commands.map Prod.fst).contains argument then
      .ok (reading, some (argument, rest))
    else
      match chars with
      | '-' :: '-' :: _ => do grammar.take rest (← grammar.takeLong chars reading.settle)
      | '-' :: letter :: letters => do
        grammar.take rest (← grammar.takeLetters (letter :: letters) reading.settle)
      | _ =>
        match reading.pending with
        | some setting =>
          grammar.take rest
            { reading with given := reading.given.addSetting setting (some argument), pending := none }
        | none => grammar.refuseArgument argument

/-- What was given when all arguments have been read.  A setting at the very end that has no value at all is
reported before anything else. -/
def finish (grammar : Grammar) (reading : Reading) : Except Stop Given :=
  let given := reading.settle.given
  match reading.pending with
  | some setting =>
    if (given.values setting).isEmpty then grammar.refuse (.missingValue setting.shown)
    else .ok given
  | none => .ok given

end Grammar

end Hashwork.CommandLine
