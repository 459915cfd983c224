import Hashwork.Word

/-!
# The Salsa20/8 core

Sixteen words are seen as a square.  A double round mixes its columns and then its rows, a quarter
round at a time; the core is four double rounds added to what they started from.
-/

namespace Hashwork.Scrypt.Salsa

abbrev Square := Vector Word 16

@[inline]
def quarterRound (a b c d : Word) : Word × Word × Word × Word :=
  let b := b ^^^ (a + d).rotateLeft 7
  let c := c ^^^ (b + a).rotateLeft 9
  let d := d ^^^ (c + b).rotateLeft 13
  let a := a ^^^ (d + c).rotateLeft 18
  (a, b, c, d)

/-- Each column is mixed from its place on the diagonal downwards. -/
def columnRound (x : Square) : Square :=
  let (x₀, x₄, x₈, x₁₂) := quarterRound x[0] x[4] x[8] x[12]
  let (x₅, x₉, x₁₃, x₁) := quarterRound x[5] x[9] x[13] x[1]
  let (x₁₀, x₁₄, x₂, x₆) := quarterRound x[10] x[14] x[2] x[6]
  let (x₁₅, x₃, x₇, x₁₁) := quarterRound x[15] x[3] x[7] x[11]
  #v[x₀, x₁, x₂, x₃, x₄, x₅, x₆, x₇, x₈, x₉, x₁₀, x₁₁, x₁₂, x₁₃, x₁₄, x₁₅]

/-- Each row is mixed from its place on the diagonal to the right. -/
def rowRound (x : Square) : Square :=
  let (x₀, x₁, x₂, x₃) := quarterRound x[0] x[1] x[2] x[3]
  let (x₅, x₆, x₇, x₄) := quarterRound x[5] x[6] x[7] x[4]
  let (x₁₀, x₁₁, x₈, x₉) := quarterRound x[10] x[11] x[8] x[9]
  let (x₁₅, x₁₂, x₁₃, x₁₄) := quarterRound x[15] x[12] x[13] x[14]
  #v[x₀, x₁, x₂, x₃, x₄, x₅, x₆, x₇, x₈, x₉, x₁₀, x₁₁, x₁₂, x₁₃, x₁₄, x₁₅]

def core (x : Square) : Square :=
  x.zipWith (· + ·) (Nat.repeat (fun y ↦ rowRound (columnRound y)) 4 x)

end Hashwork.Scrypt.Salsa
