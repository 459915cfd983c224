import Hashwork.Proofs.ShaExtension.Compression

/-!
# Registers as bits

A register is 128 bits.  The instructions that only add or move data are given for bits: one shifts two
registers by a number of bytes, one exchanges halves of words.  The compression uses them on whole words, and
there they are the operations on words that it is written with.
-/

namespace Hashwork.ShaExtension

namespace Register

/-- The 128 bits, the lowest word last. -/
def bits (x : Register) : BitVec 128 :=
  x.word₃.toBitVec ++ x.word₂.toBitVec ++ x.word₁.toBitVec ++ x.word₀.toBitVec

theorem extractLsb'_bits (x : Register) (i : Nat) (hi : i < 4) :
    x.bits.extractLsb' (32 * i) 32 = (x.word i).toBitVec := by
  apply BitVec.eq_of_getLsbD_eq
  intro k hk
  simp only [bits, BitVec.getLsbD_extractLsb', BitVec.getLsbD_append]
  match i, hi with
  | 0, _ | 1, _ | 2, _ | 3, _ =>
    simp only [word]
    grind

/-- A register is its four words. -/
theorem bits_ext {v w : BitVec 128}
    (h : ∀ i < 4, v.extractLsb' (32 * i) 32 = w.extractLsb' (32 * i) 32) : v = w := by
  apply BitVec.eq_of_getLsbD_eq
  intro k hk
  have hword := congrArg (·.getLsbD (k % 32)) (h (k / 32) (by omega))
  have hplace : 32 * (k / 32) + k % 32 = k := Nat.div_add_mod k 32
  have hmod : k % 32 < 32 := Nat.mod_lt k (by decide)
  simpa only [BitVec.getLsbD_extractLsb', hplace, hmod, decide_true, Bool.true_and] using hword

/-- Half a word is half of one of the four words. -/
theorem extractLsb'_half (x : Register) (i : Nat) (hi : i < 8) :
    x.bits.extractLsb' (16 * i) 16 =
      (x.word (i / 2)).toBitVec.extractLsb' (16 * (i % 2)) 16 := by
  rw [← extractLsb'_bits x (i / 2) (by omega)]
  apply BitVec.eq_of_getLsbD_eq
  intro k hk
  have hinside : 16 * (i % 2) + k < 32 := by omega
  have hplace : 32 * (i / 2) + (16 * (i % 2) + k) = 16 * i + k := by omega
  simp only [BitVec.getLsbD_extractLsb', hk, hinside, hplace, decide_true, Bool.true_and]

end Register

theorem word_shuffle (x : Register) (control i : Nat) (hi : i < 4) :
    (shuffle x control).word i = x.word (control >>> (2 * i) % 4) := by
  simp only [shuffle]
  match i, hi with
  | 0, _ => rfl
  | 1, _ | 2, _ | 3, _ => simp [Register.word, Nat.shiftRight_eq_div_pow]

theorem word_alignRight (high low : Register) (n i : Nat) (hi : i < 4) :
    (alignRight high low n).word i =
      if n + i < 4 then low.word (n + i) else high.word (n + i - 4) := by
  match i, hi with
  | 0, _ | 1, _ | 2, _ | 3, _ => rfl

/-- Of two registers that are shifted as one by whole words, the words further up. -/
theorem extractLsb'_shiftRight_append (v w : BitVec 128) (n i : Nat) (hi : i < 4) :
    (((v ++ w) >>> (8 * (4 * n))).setWidth 128).extractLsb' (32 * i) 32 =
      if n + i < 4 then w.extractLsb' (32 * (n + i)) 32
      else v.extractLsb' (32 * (n + i - 4)) 32 := by
  apply BitVec.eq_of_getLsbD_eq
  intro k hk
  have hinside : 32 * i + k < 128 := by omega
  have hplace : 8 * (4 * n) + (32 * i + k) = 32 * (n + i) + k := by omega
  simp only [BitVec.getLsbD_extractLsb', BitVec.getLsbD_setWidth, BitVec.getLsbD_ushiftRight,
    BitVec.getLsbD_append, hplace, hinside, hk, decide_true, Bool.true_and]
  by_cases hlow : n + i < 4
  · rw [if_pos (by omega), if_pos hlow, BitVec.getLsbD_extractLsb', decide_eq_true hk, Bool.true_and]
  · have hsub : 32 * (n + i) + k - 128 = 32 * (n + i - 4) + k := by omega
    rw [if_neg (by omega), if_neg hlow, BitVec.getLsbD_extractLsb', decide_eq_true hk, Bool.true_and,
      hsub]

/-- What the instructions that add and move data do to the bits of their operands. -/
structure Operates : Prop where
  add_eq (x y : Register) (i : Nat) : i < 4 →
    (add x y).bits.extractLsb' (32 * i) 32 =
      x.bits.extractLsb' (32 * i) 32 + y.bits.extractLsb' (32 * i) 32
  /-- Two bits of the control name the word for each place. -/
  shuffle_eq (x : Register) (control i : Nat) : i < 4 →
    (shuffle x control).bits.extractLsb' (32 * i) 32 =
      x.bits.extractLsb' (32 * (control >>> (2 * i) % 4)) 32
  /-- The two registers are shifted as one, by a number of bytes. -/
  alignRight_eq (high low : Register) (n : Nat) : n ≤ 4 →
    (alignRight high low n).bits = ((high.bits ++ low.bits) >>> (8 * (4 * n))).setWidth 128
  /-- For each half of a word a bit of the control says which operand it comes from. -/
  blendUpper_eq (x y : Register) (i : Nat) : i < 8 →
    (blendUpper x y).bits.extractLsb' (16 * i) 16 =
      if Nat.testBit 0xf0 i then y.bits.extractLsb' (16 * i) 16
      else x.bits.extractLsb' (16 * i) 16

theorem operates : Operates where
  add_eq x y i hi := by
    simp only [Register.extractLsb'_bits _ i hi]
    match i, hi with
    | 0, _ | 1, _ | 2, _ | 3, _ => rfl
  shuffle_eq x control i hi := by
    rw [Register.extractLsb'_bits _ i hi, Register.extractLsb'_bits _ _ (Nat.mod_lt _ (by decide)),
      word_shuffle x control i hi]
  alignRight_eq high low n hn := by
    apply Register.bits_ext
    intro i hi
    rw [Register.extractLsb'_bits _ i hi, word_alignRight high low n i hi,
      extractLsb'_shiftRight_append _ _ n i hi]
    split
    · rename_i hlow
      rw [Register.extractLsb'_bits _ _ hlow]
    · rw [Register.extractLsb'_bits _ _ (by omega)]
  blendUpper_eq x y i hi := by
    simp only [Register.extractLsb'_half _ i hi]
    match i, hi with
    | 0, _ | 1, _ | 2, _ | 3, _ | 4, _ | 5, _ | 6, _ | 7, _ => rfl

/-- With these instructions every state and every block give what the rounds give one by one.  So the double
hash is the same at every nonce, whatever has been prepared. -/
theorem agrees_with_rounds :
    Operates ∧ (∀ s block, compress s block = Sha256.compress s block) ∧
      ∀ prepared nonce, doubleHash prepared nonce =
        Sha256.doubleHash prepared.midstate prepared.tail prepared.pad nonce :=
  ⟨operates, compress_eq, doubleHash_eq⟩

end Hashwork.ShaExtension
