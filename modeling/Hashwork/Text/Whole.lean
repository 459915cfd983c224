/-!
# Whole numbers in text

A number is written in some base, with an optional plus sign in front, and has to be below a limit.  The
digits are read from the left, and the first thing that is wrong is reported.
-/

namespace Hashwork.Text.Whole

inductive Fault where
  | empty
  | invalidDigit
  | tooLarge
deriving DecidableEq, Repr

def Fault.message : Fault → String
  | empty => "cannot parse integer from empty string"
  | invalidDigit => "invalid digit found in string"
  | tooLarge => "number too large to fit in target type"

/-- The value of an ASCII digit or letter of either case, if it is a digit of the base. -/
def digitValue (base : Nat) (c : Char) : Option Nat :=
  let value :=
    if '0' ≤ c ∧ c ≤ '9' then c.toNat - '0'.toNat
    else if 'a' ≤ c ∧ c ≤ 'z' then c.toNat - 'a'.toNat + 10
    else if 'A' ≤ c ∧ c ≤ 'Z' then c.toNat - 'A'.toNat + 10
    else base
  if value < base then some value else none

/-- Reads digits after `value`, the number read so far. -/
def readDigits (base limit value : Nat) : List Char → Except Fault Nat
  | [] => .ok value
  | c :: rest =>
    match digitValue base c with
    | none => .error .invalidDigit
    | some digit =>
      let next := value * base + digit
      if next < limit then readDigits base limit next rest else .error .tooLarge

/-- A sign alone is not a number. -/
def parse (base limit : Nat) (text : String) : Except Fault Nat :=
  match text.toList with
  | [] => .error .empty
  | ['+'] => .error .invalidDigit
  | '+' :: digits => readDigits base limit 0 digits
  | digits => readDigits base limit 0 digits

end Hashwork.Text.Whole
