import Hashwork.Decimal.Places

/-!
# The fewest digits that read back

The numbers that round to a given double form an interval, whose ends belong to it exactly when the
mantissa is even.  For one digit, two digits and so on, the two decimals of that many digits around the
double are tried; the first that is in the interval is the answer, the nearer one of two, and the even one
of two that are equally near.
-/

namespace Hashwork.Decimal

/-- Whether `a / b ≤ c / d`, for positive denominators. -/
def Ratio.le (x y : Ratio) : Bool :=
  x.numerator * y.denominator ≤ y.numerator * x.denominator

def Ratio.lt (x y : Ratio) : Bool :=
  x.numerator * y.denominator < y.numerator * x.denominator

/-- The quotient equal to `n * 10 ^ e`. -/
def Ratio.decimal (n : Nat) (e : Int) : Ratio :=
  if 0 ≤ e then ⟨n * Nat.pow 10 e.toNat, 1⟩ else ⟨n, Nat.pow 10 (-e).toNat⟩

/-- The numbers that round to one double. -/
structure Interval where
  value : Ratio
  lower : Ratio
  upper : Ratio
  closed : Bool
deriving Repr

def Interval.ofFinite (mantissa : Nat) (exponent : Int) (narrow : Bool) : Interval where
  value := .scaled mantissa exponent
  lower := .scaled (4 * mantissa - if narrow then 1 else 2) (exponent - 2)
  upper := .scaled (4 * mantissa + 2) (exponent - 2)
  closed := mantissa % 2 == 0

def Interval.contains (i : Interval) (x : Ratio) : Bool :=
  if i.closed then i.lower.le x && x.le i.upper else i.lower.lt x && x.lt i.upper

/-- The exponent of the first digit of a positive number between `10 ^ -350` and its reciprocal. -/
def leadingExponent (x : Ratio) : Int :=
  (Nat.toDigits 10 (x.numerator * Nat.pow 10 350 / x.denominator)).length - 1 - 350

/-- The whole number `n` for which `n * 10 ^ e` reads back as the double, if there is one. -/
def readingBackAt (i : Interval) (e : Int) : Option Nat :=
  let scaled := if 0 ≤ e then Ratio.mk i.value.numerator (i.value.denominator * Nat.pow 10 e.toNat)
    else ⟨i.value.numerator * Nat.pow 10 (-e).toNat, i.value.denominator⟩
  let below := scaled.numerator / scaled.denominator
  let above := below + 1
  match i.contains (.decimal below e), i.contains (.decimal above e) with
  | true, true => some (roundHalfEven scaled)
  | true, false => some below
  | false, true => some above
  | false, false => none

/-- The number `digits * 10 ^ exponent`, where `digits` does not end in a zero. -/
structure Digits where
  digits : List Char
  exponent : Int
deriving DecidableEq, Repr

/-- Moves trailing zeros to the exponent. -/
def Digits.ofNat (n : Nat) (e : Int) : Digits :=
  let digits := Nat.toDigits 10 n
  let kept := (digits.reverse.dropWhile (· == '0')).reverse
  ⟨kept, e + (digits.length - kept.length : Nat)⟩

/-- The fewest digits that read back as a positive double, found with at most seventeen. -/
def shortestDigits (i : Interval) : Digits :=
  let lead := leadingExponent i.value
  let attempt (count : Nat) : Option Digits :=
    let e := lead - count + 1
    (readingBackAt i e).map (Digits.ofNat · e)
  ((List.range 17).findSome? fun n ↦ attempt (n + 1)).getD ⟨['0'], 0⟩

/-- Where a number is written with its point in place, by the exponent of its first digit. -/
structure Layout where
  least : Int
  greatest : Int
deriving DecidableEq, Repr

/-- With the point in place there is a digit on both sides of it. -/
def Digits.positional (d : Digits) : List Char :=
  if 0 ≤ d.exponent then d.digits ++ List.replicate d.exponent.toNat '0' ++ ['.', '0']
  else
    let places := (-d.exponent).toNat
    if places < d.digits.length then
      let whole := d.digits.length - places
      d.digits.take whole ++ '.' :: d.digits.drop whole
    else ['0', '.'] ++ List.replicate (places - d.digits.length) '0' ++ d.digits

/-- Otherwise one digit stands before the point, which is left out if there are no more, and the exponent
has a sign. -/
def Digits.scientific (d : Digits) : List Char :=
  let exponent := d.exponent + d.digits.length - 1
  let tail := d.digits.drop 1
  d.digits.take 1 ++ (if tail.isEmpty then [] else '.' :: tail) ++
    ['e', if exponent < 0 then '-' else '+'] ++ Nat.toDigits 10 exponent.natAbs

def Digits.text (layout : Layout) (d : Digits) : String :=
  let lead := d.exponent + d.digits.length - 1
  String.ofList <|
    if layout.least ≤ lead ∧ lead ≤ layout.greatest then d.positional else d.scientific

/-- A finite double in the fewest digits; there is no text for the others. -/
def shortest? (layout : Layout) (x : Float) : Option String :=
  match Binary64.ofFloat x with
  | .nan | .infinite _ => none
  | .finite negative 0 _ _ => some (signText negative ++ "0.0")
  | .finite negative mantissa exponent narrow =>
    some (signText negative ++ (shortestDigits (.ofFinite mantissa exponent narrow)).text layout)

end Hashwork.Decimal
