import Hashwork.Sha256.Round

/-!
# Instructions for SHA-256

Some processors have instructions that do two rounds at once, or compute four schedule words, on
registers of four words.  They are given here by their effect on the words, together with the few
instructions that rearrange such registers.

The working state takes two registers: one holds `a`, `b`, `e`, `f` and the other `c`, `d`, `g`, `h`,
both from the highest word down.
-/

namespace Hashwork.ShaExtension

open Sha256 (choose majority bigSigma0 bigSigma1 smallSigma0 smallSigma1)

/-- Four words, of which word 0 is the lowest. -/
structure Register where
  word₀ : Word
  word₁ : Word
  word₂ : Word
  word₃ : Word
deriving DecidableEq, Repr

/-- The word of a number below four. -/
@[inline]
def Register.word (x : Register) : Nat → Word
  | 0 => x.word₀
  | 1 => x.word₁
  | 2 => x.word₂
  | _ => x.word₃

def add (x y : Register) : Register :=
  ⟨x.word₀ + y.word₀, x.word₁ + y.word₁, x.word₂ + y.word₂, x.word₃ + y.word₃⟩

/-- Word `i` of the result is the word of `x` that the `i`-th pair of bits of `control` names. -/
@[inline]
def shuffle (x : Register) (control : Nat) : Register :=
  ⟨x.word (control % 4), x.word (control / 4 % 4), x.word (control / 16 % 4),
    x.word (control / 64 % 4)⟩

/-- The four words from word `n` on of the eight words of `low` and `high`. -/
@[inline]
def alignRight (high low : Register) (n : Nat) : Register :=
  let word (i : Nat) : Word := if i < 4 then low.word i else high.word (i - 4)
  ⟨word n, word (n + 1), word (n + 2), word (n + 3)⟩

/-- The two lower words of `x` and the two upper words of `y`. -/
def blendUpper (x y : Register) : Register :=
  ⟨x.word₀, x.word₁, y.word₂, y.word₃⟩

/-- Two rounds.  `cdgh` and `abef` hold the state, and the two lower words of `wk` the sums of a
schedule word and a round constant; the result is the new `abef`. -/
def twoRounds (cdgh abef wk : Register) : Register :=
  let ⟨f₀, e₀, b₀, a₀⟩ := abef
  let ⟨h₀, g₀, d₀, c₀⟩ := cdgh
  let t₀ := choose e₀ f₀ g₀ + bigSigma1 e₀ + wk.word₀ + h₀
  let a₁ := t₀ + majority a₀ b₀ c₀ + bigSigma0 a₀
  let e₁ := t₀ + d₀
  let t₁ := choose e₁ e₀ f₀ + bigSigma1 e₁ + wk.word₁ + g₀
  let a₂ := t₁ + majority a₁ a₀ b₀ + bigSigma0 a₁
  let e₂ := t₁ + c₀
  ⟨e₁, e₂, a₁, a₂⟩

/-- The first half of four schedule steps: each word of `x` plus the small sigma of the next one. -/
def scheduleFirst (x y : Register) : Register :=
  ⟨x.word₀ + smallSigma0 x.word₁, x.word₁ + smallSigma0 x.word₂, x.word₂ + smallSigma0 x.word₃,
    x.word₃ + smallSigma0 y.word₀⟩

/-- The second half of four schedule steps, where the last two depend on the first two. -/
def scheduleSecond (x y : Register) : Register :=
  let w₁₆ := x.word₀ + smallSigma1 y.word₂
  let w₁₇ := x.word₁ + smallSigma1 y.word₃
  ⟨w₁₆, w₁₇, x.word₂ + smallSigma1 w₁₆, x.word₃ + smallSigma1 w₁₇⟩

end Hashwork.ShaExtension
