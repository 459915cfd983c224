import Hashwork.Word

/-!
# Words and their bytes

A word is determined by its four bytes in either order, and the word with the bytes reversed is the one
read from the same bytes in the other order.  As a number, a word is read from its bytes in base 256.
-/

namespace Hashwork.Word

theorem toNat_littleEndianByte (x : Word) (i : Fin 4) :
    (x.littleEndianByte i).toNat = x.toNat >>> (8 * i.val) % 256 := by
  have hshift : (8 * i.val).toUInt32.toNat % 32 = 8 * i.val := by
    have hi := i.isLt
    rw [Nat.toUInt32_eq, UInt32.toNat_ofNat_of_lt' (by rw [UInt32.size]; omega)]
    omega
  rw [littleEndianByte, UInt32.toNat_toUInt8, UInt32.toNat_shiftRight, hshift]

/-- No shifted byte reaches into the place of another, so the word is their sum. -/
theorem toNat_ofBigEndian (b₀ b₁ b₂ b₃ : UInt8) :
    (ofBigEndian b₀ b₁ b₂ b₃).toNat =
      256 * (256 * (256 * b₀.toNat + b₁.toNat) + b₂.toNat) + b₃.toNat := by
  have hplace (b : UInt8) (k : Nat) (hk : k ≤ 24) : b.toNat <<< k % 4294967296 = b.toNat <<< k := by
    apply Nat.mod_eq_of_lt
    rw [Nat.shiftLeft_eq]
    calc
      b.toNat * 2 ^ k < 2 ^ 8 * 2 ^ k := Nat.mul_lt_mul_of_pos_right b.toNat_lt (Nat.two_pow_pos k)
      _ ≤ 2 ^ 8 * 2 ^ 24 := Nat.mul_le_mul_left _ (Nat.pow_le_pow_right (by decide) hk)
      _ = 4294967296 := by decide
  have hnested : (ofBigEndian b₀ b₁ b₂ b₃).toNat =
      ((b₀.toNat <<< 8 ||| b₁.toNat) <<< 8 ||| b₂.toNat) <<< 8 ||| b₃.toNat := by
    simp only [ofBigEndian, UInt32.toNat_or, UInt32.toNat_shiftLeft, UInt8.toNat_toUInt32,
      Nat.shiftLeft_or_distrib, ← Nat.shiftLeft_add]
    simp [hplace]
  have hjoin (a : Nat) (b : UInt8) : a <<< 8 ||| b.toNat = 256 * a + b.toNat := by
    rw [← Nat.shiftLeft_add_eq_or_of_lt b.toNat_lt, Nat.shiftLeft_eq, Nat.mul_comm]
  rw [hnested, hjoin, hjoin, hjoin]

@[simp]
theorem ofBigEndian_bigEndianByte (x : Word) :
    ofBigEndian (x.bigEndianByte 0) (x.bigEndianByte 1) (x.bigEndianByte 2) (x.bigEndianByte 3) =
      x := by
  apply UInt32.toNat_inj.mp
  have hx := x.toNat_lt
  simp only [toNat_ofBigEndian, bigEndianByte, toNat_littleEndianByte, Nat.shiftRight_eq_div_pow]
  change 256 * (256 * (256 * (x.toNat / 2 ^ 24 % 256) + x.toNat / 2 ^ 16 % 256) +
    x.toNat / 2 ^ 8 % 256) + x.toNat / 2 ^ 0 % 256 = x.toNat
  omega

@[simp]
theorem ofBigEndian_littleEndianByte (x : Word) :
    ofBigEndian (x.littleEndianByte 0) (x.littleEndianByte 1) (x.littleEndianByte 2)
      (x.littleEndianByte 3) = x.reverseBytes := by
  have hshift : (8 * (0 : Fin 4).val).toUInt32 = 0 ∧ (8 * (1 : Fin 4).val).toUInt32 = 8 ∧
      (8 * (2 : Fin 4).val).toUInt32 = 16 ∧ (8 * (3 : Fin 4).val).toUInt32 = 24 := by decide
  have hsecond : ∀ i < 32, (0xff00#32).getLsbD i = (decide (8 ≤ i) && decide (i < 16)) := by decide
  have hthird : ∀ i < 32, (0xff0000#32).getLsbD i = (decide (16 ≤ i) && decide (i < 24)) := by
    decide
  apply UInt32.toBitVec_inj.mp
  apply BitVec.eq_of_getLsbD_eq
  intro i hi
  simp only [ofBigEndian, reverseBytes, littleEndianByte, hshift, UInt32.toBitVec_or,
    UInt32.toBitVec_and, UInt32.toBitVec_shiftLeft, UInt32.toBitVec_shiftRight,
    UInt8.toBitVec_toUInt32, UInt32.toBitVec_toUInt8, UInt32.toBitVec_ofNat, BitVec.getLsbD_or,
    BitVec.getLsbD_and, BitVec.shiftLeft_eq', BitVec.ushiftRight_eq', BitVec.getLsbD_shiftLeft,
    BitVec.getLsbD_setWidth, BitVec.getLsbD_ushiftRight, hsecond i hi, hthird i hi]
  simp
  -- Of the bits themselves it matters only that there are none from 32 on.
  have hhigh (k : Nat) (hk : 32 ≤ k) : x.toBitVec.getLsbD k = false := BitVec.getLsbD_of_ge _ k hk
  clear hshift hsecond hthird
  generalize x.toBitVec.getLsbD = bit at hhigh ⊢
  grind

/-! ## Numbers as words -/

theorem toUInt32_add (m n : Nat) : (m + n).toUInt32 = m.toUInt32 + n.toUInt32 := by
  simp [Nat.toUInt32_eq, UInt32.ofNat_add]

theorem toUInt32_toNat_add (x : Word) (n : Nat) : (x.toNat + n).toUInt32 = x + n.toUInt32 := by
  rw [toUInt32_add, Nat.toUInt32_eq, UInt32.ofNat_toNat]

end Hashwork.Word
