import Hashwork.Routine

/-!
# Log lines

Every line has a level.  A listener takes the lines from some level upwards.
-/

namespace Hashwork

namespace Log

inductive Level where
  | debug
  | info
  | warn
  | error
deriving DecidableEq, Repr

def Level.rank : Level → Nat
  | .debug => 0
  | .info => 1
  | .warn => 2
  | .error => 3

def Level.name : Level → String
  | .debug => "DEBUG"
  | .info => "INFO"
  | .warn => "WARN"
  | .error => "ERROR"

structure Line where
  level : Level
  text : String
deriving DecidableEq, Repr

/-- Whether a listener that takes lines from level `least` upwards takes this one. -/
def Line.reaches (line : Line) (least : Level) : Bool :=
  least.rank ≤ line.level.rank

/-- Two digits of a clock. -/
def twoDigits (n : Nat) : String :=
  let digits := toString n
  if digits.length < 2 then "0" ++ digits else digits

/-- The line as it is written, with the time of day in front. -/
def Line.stamped (line : Line) (secondsOfDay : Nat) : String :=
  ":".intercalate [twoDigits (secondsOfDay / 3600), twoDigits (secondsOfDay / 60 % 60),
    twoDigits (secondsOfDay % 60)] ++ " [" ++ line.level.name ++ "] " ++ line.text

end Log

/-- A routine that does nothing but write log lines. -/
abbrev Logging := Routine Log.Line fun _ ↦ Unit

def Log.note (level : Log.Level) (text : String) : Logging Unit :=
  Routine.request ⟨level, text⟩

end Hashwork
