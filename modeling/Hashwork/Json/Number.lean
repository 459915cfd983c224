import Hashwork.Decimal.Shortest
import Hashwork.Json.Reader

/-!
# Numbers in documents

The digits of a number are gathered in a 64-bit significand.  From the first whole digit that does not fit
the rest only count for the exponent, and fraction digits that do not fit count for nothing.  The number is
the significand, as a double, times a power of ten, as a double.  A whole number without fraction and
exponent stays exact.
-/

namespace Hashwork.Json

inductive Number where
  | whole (n : Int)
  | double (x : Float)

/-- A double has its point in place from a hundred-thousandth to below `10 ^ 16`. -/
def numberLayout : Decimal.Layout := ⟨-5, 15⟩

def Number.text : Number → String
  | whole n => "integer `" ++ toString n ++ "`"
  | double x => "floating point `" ++ (Decimal.shortest? numberLayout x).getD "" ++ "`"

/-- Appends digits to a significand for as long as they fit, and says how many did not. -/
def gather (significand : Nat) : List Char → Nat × Nat
  | [] => (significand, 0)
  | c :: rest =>
    let next := significand * 10 + (c.toNat - '0'.toNat)
    if next < UInt64.size then gather next rest else (significand, rest.length + 1)

/-- The power of ten as a double. -/
def powerOfTen (e : Nat) : Float :=
  Float.ofScientific 1 false e

/-- The greatest exponent of a power of ten that is a double. -/
def greatestPower : Nat := 308

/-- Divides by `10 ^ e`, in steps that are no greater than the greatest power. -/
def divideBy (x : Float) (e : Nat) : Float :=
  if _h : e ≤ greatestPower then x / powerOfTen e
  else divideBy (x / powerOfTen greatestPower) (e - greatestPower)
termination_by e
decreasing_by simp only [greatestPower] at *; omega

/-- The significand times a power of ten, unless it is too large for a double. -/
def scale (significand : Nat) (exponent : Int) : Except Fault Float :=
  let x := significand.toUInt64.toFloat
  if significand = 0 then .ok x
  else if exponent < 0 then .ok (if exponent < -700 then 0 else divideBy x (-exponent).toNat)
  else if exponent ≤ greatestPower then
    let product := x * powerOfTen exponent.toNat
    if product.isInf then .error .malformed else .ok product
  else .error .malformed

def splitDigits (text : List Char) : List Char × List Char :=
  (text.takeWhile Char.isDigit, text.dropWhile Char.isDigit)

/-- The digits at the front of a text, of which there has to be one. -/
def someDigits (text : List Char) : Except Fault (List Char × List Char) :=
  match splitDigits text with
  | ([], []) => .error .incomplete
  | ([], _) => .error .malformed
  | found => .ok found

/-- The whole part of a number, which has no superfluous zeros. -/
def wholeDigits (text : List Char) : Except Fault (List Char × List Char) :=
  match someDigits text with
  | .ok ('0' :: _ :: _, _) => .error .malformed
  | found => found

/-- The digits after a point, if there is a point. -/
def fractionDigits (text : List Char) : Except Fault (Option (List Char) × List Char) :=
  match text with
  | '.' :: rest => (someDigits rest).map fun (digits, rest) ↦ (some digits, rest)
  | _ => .ok (none, text)

/-- The value of the exponent, if there is one. -/
def exponent (text : List Char) : Except Fault (Option Int) :=
  let value (digits : List Char) : Int := digits.foldl (fun n c ↦ n * 10 + (c.toNat - '0'.toNat : Nat)) 0
  let read (sign : Int) (rest : List Char) : Except Fault (Option Int) :=
    (someDigits rest).map fun (digits, _) ↦ some (sign * value digits)
  match text with
  | 'e' :: rest | 'E' :: rest =>
    match rest with
    | '+' :: rest => read 1 rest
    | '-' :: rest => read (-1) rest
    | _ => read 1 rest
  | _ => .ok none

/-- A number without its sign.  What follows it is not looked at. -/
def unsigned (negative : Bool) (text : List Char) : Except Fault Number := do
  let (whole, rest) ← wholeDigits text
  let (significand, left) := gather 0 whole
  let (fraction, rest) ← fractionDigits rest
  let exponent ← exponent rest
  let signed (x : Float) : Number := .double (if negative then -x else x)
  match fraction, exponent with
  | none, none =>
    if left = 0 ∧ !negative then return .whole significand
    else if left = 0 ∧ 0 < significand ∧ significand ≤ 0x8000000000000000 then return .whole (-significand)
    else signed <$> scale significand left
  | _, _ =>
    let digits := fraction.getD []
    let (significand, unfit) := gather significand digits
    signed <$> scale significand (left - (digits.length - unfit : Nat) + exponent.getD 0)

def readNumber : List Char → Except Fault Number
  | '-' :: text => unsigned true text
  | text => unsigned false text

end Hashwork.Json
