import Hashwork.Sha256.Round

/-!
# The compression function

The message schedule is built as a whole before the rounds begin: the sixteen words of the block, and
then forty-eight words that each depend on four earlier ones.  Engines that keep only the last sixteen
words of the schedule are compared with this form.
-/

namespace Hashwork.Sha256

/-- The next word of the schedule, given the words 2, 7, 15 and 16 places before it. -/
@[inline]
def scheduleStep (w₂ w₇ w₁₅ w₁₆ : Word) : Word :=
  smallSigma1 w₂ + w₇ + smallSigma0 w₁₅ + w₁₆

/-- The first `16 + n` words of the schedule of a block. -/
def scheduleTo (block : Block) : (n : Nat) → Vector Word (n + 16)
  | 0 => block
  | n + 1 =>
    let words := scheduleTo block n
    (words.push (scheduleStep words[n + 14] words[n + 9] words[n + 1] words[n])).cast (by omega)

def schedule (block : Block) : Vector Word 64 :=
  scheduleTo block 48

/-- The working state after the first `n` rounds over a schedule. -/
def roundsTo (words : Vector Word 64) (s : State) (n : Nat) (h : n ≤ 64 := by omega) : State :=
  n.fold (fun i _ s ↦ round s roundConstants[i] words[i]) s

/-- The state after one more block of the message. -/
def compress (s : State) (block : Block) : State :=
  s.zipWith (· + ·) (roundsTo (schedule block) s 64)

end Hashwork.Sha256
