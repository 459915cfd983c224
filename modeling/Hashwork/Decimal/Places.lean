import Hashwork.Decimal.Binary64

/-!
# Numbers with a set number of decimal places

The exact number is rounded, and a tie goes to the even neighbour.
-/

namespace Hashwork.Decimal

/-- The whole number nearest to a quotient, and the even one of two that are equally near. -/
def roundHalfEven (x : Ratio) : Nat :=
  let quotient := x.numerator / x.denominator
  let twice := 2 * (x.numerator % x.denominator)
  if twice < x.denominator then quotient
  else if x.denominator < twice then quotient + 1
  else quotient + quotient % 2

/-- The digits of `n` hundredths, thousandths or the like, with the point `places` from the end. -/
def withPoint (places n : Nat) : String :=
  let whole := toString (n / Nat.pow 10 places)
  if places = 0 then whole
  else
    let digits := Nat.toDigits 10 (n % Nat.pow 10 places)
    whole ++ "." ++ String.ofList (List.replicate (places - digits.length) '0' ++ digits)

def signText (negative : Bool) : String :=
  if negative then "-" else ""

/-- A double with `places` decimal places.  The sign of a negative number stays, even if all its digits
are zeros. -/
def fixed (places : Nat) (x : Float) : String :=
  match Binary64.ofFloat x with
  | .nan => "NaN"
  | .infinite negative => signText negative ++ "inf"
  | .finite negative mantissa exponent _ =>
    signText negative ++
      withPoint places (roundHalfEven (.scaled (mantissa * Nat.pow 10 places) exponent))

end Hashwork.Decimal
