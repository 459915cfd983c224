/-!
# Doubles as exact numbers

A finite double is a whole number times a power of two, with a sign.  All decimal text is made from that
number, never from another rounded one.
-/

namespace Hashwork.Decimal

/-- What a double stands for. -/
inductive Binary64 where
  | nan
  | infinite (negative : Bool)
  /-- The number `mantissa * 2 ^ exponent`, with its sign.  Of the doubles next to it, the one nearer to
  zero is closer by half when `narrow` holds. -/
  | finite (negative : Bool) (mantissa : Nat) (exponent : Int) (narrow : Bool)
deriving DecidableEq, Repr

/-- A mantissa has this bit, which is not stored, unless the double is very small. -/
def implicitBit : Nat := 0x10000000000000

def Binary64.ofFloat (x : Float) : Binary64 :=
  let bits := x.toBits.toNat
  let negative := bits >>> 63 == 1
  let scale : Nat := bits >>> 52 % 2048
  let fraction := bits % implicitBit
  if scale = 2047 then
    if fraction = 0 then .infinite negative else .nan
  else if scale = 0 then .finite negative fraction (-1074) false
  else .finite negative (implicitBit + fraction) ((scale : Int) - 1075) (fraction == 0 && scale > 1)

/-- A non-negative number as a quotient of naturals. -/
structure Ratio where
  numerator : Nat
  denominator : Nat
deriving DecidableEq, Repr

/-- The quotient equal to `n * 2 ^ e`. -/
def Ratio.scaled (n : Nat) (e : Int) : Ratio :=
  if 0 ≤ e then ⟨n <<< e.toNat, 1⟩ else ⟨n, 1 <<< (-e).toNat⟩

end Hashwork.Decimal
