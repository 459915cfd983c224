import Hashwork.Algorithm.Basic

/-!
# The configured algorithm

Either one algorithm is asked for by name, or the fastest is to be found by a short or by a long
measurement.
-/

namespace Hashwork

/-- How long a measurement is. -/
inductive BenchMode where
  | quick
  | thorough
deriving DecidableEq, Repr

namespace BenchMode

/-- The number of nonces that are hashed for one measurement. -/
def nonces : BenchMode → Nat
  | quick => 256
  | thorough => 4194304

def label : BenchMode → String
  | quick => "Quick"
  | thorough => "Thorough"

end BenchMode

inductive Choice where
  | fixed (algorithm : Algorithm)
  | fastAuto
  | auto
deriving DecidableEq, Repr

namespace Choice

def mode : Choice → BenchMode
  | auto => .thorough
  | _ => .quick

def text : Choice → String
  | fixed algorithm => algorithm.name
  | fastAuto => "fastauto"
  | auto => "auto"

def label : Choice → String
  | fixed algorithm => "Fixed(" ++ algorithm.label ++ ")"
  | fastAuto => "FastAuto"
  | auto => "Auto"

def parse (text : String) : Except Algorithm.NameFault Choice :=
  if text = "fastauto" then .ok .fastAuto
  else if text = "auto" then .ok .auto
  else (Algorithm.parse text).map .fixed

end Choice

end Hashwork
