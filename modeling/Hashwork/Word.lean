/-!
# Words

A word is 32 bits, and its arithmetic wraps.  Rotations are the two shifts they consist of, and the
byte orders are given one byte at a time, so that a byte of a word can be looked up without building
the other three.
-/

namespace Hashwork

abbrev Word := UInt32

namespace Word

@[inline]
def rotateRight (x n : Word) : Word :=
  (x >>> n) ||| (x <<< (32 - n))

@[inline]
def rotateLeft (x n : Word) : Word :=
  (x <<< n) ||| (x >>> (32 - n))

/-- The word with its four bytes in the opposite order. -/
def reverseBytes (x : Word) : Word :=
  (x >>> 24) ||| ((x >>> 8) &&& (0xff00 : Word)) ||| ((x <<< 8) &&& (0xff0000 : Word)) ||| (x <<< 24)

/-- The word whose bytes, most significant first, are the four given. -/
def ofBigEndian (b₀ b₁ b₂ b₃ : UInt8) : Word :=
  (b₀.toUInt32 <<< 24) ||| (b₁.toUInt32 <<< 16) ||| (b₂.toUInt32 <<< 8) ||| b₃.toUInt32

/-- The word whose bytes, least significant first, are the four given. -/
def ofLittleEndian (b₀ b₁ b₂ b₃ : UInt8) : Word :=
  ofBigEndian b₃ b₂ b₁ b₀

/-- Byte `i` of a word, counted from the least significant. -/
def littleEndianByte (x : Word) (i : Fin 4) : UInt8 :=
  (x >>> (8 * i.val).toUInt32).toUInt8

/-- Byte `i` of a word, counted from the most significant. -/
def bigEndianByte (x : Word) (i : Fin 4) : UInt8 :=
  littleEndianByte x i.rev

/-! ## Counting up to a bound -/

theorem toNat_add_one {x max : Word} (h : x < max) : (x + 1).toNat = x.toNat + 1 := by
  have hlt : x.toNat < max.toNat := h
  have hmax := max.toNat_lt
  rw [UInt32.toNat_add, UInt32.toNat_one]
  omega

theorem add_one_le {x max : Word} (h : x < max) : x + 1 ≤ max := by
  have hlt : x.toNat < max.toNat := h
  rw [UInt32.le_iff_toNat_le, toNat_add_one h]
  omega

theorem le_add_one {x y max : Word} (hxy : x ≤ y) (h : y < max) : x ≤ y + 1 := by
  have hle : x.toNat ≤ y.toNat := hxy
  rw [UInt32.le_iff_toNat_le, toNat_add_one h]
  omega

/-- What is left up to the bound gets less by every step. -/
theorem sub_add_one_lt {x y max : Word} (hxy : x ≤ y) (h : y < max) :
    max.toNat - (y + 1).toNat < max.toNat - x.toNat := by
  have hle : x.toNat ≤ y.toNat := hxy
  have hlt : y.toNat < max.toNat := h
  rw [toNat_add_one h]
  omega

/-- A word `n` places further on, where the bound is no nearer than that. -/
theorem toNat_add_of_le_sub {x max : Word} {n : Nat} (h : n ≤ max.toNat - x.toNat)
    (le : x ≤ max) : (x + n.toUInt32).toNat = x.toNat + n := by
  have hmax := max.toNat_lt
  have hle : x.toNat ≤ max.toNat := le
  rw [UInt32.toNat_add, Nat.toUInt32_eq, UInt32.toNat_ofNat_of_lt' (by rw [UInt32.size]; omega)]
  omega

/-- Numbers below `2 ^ 32` keep their order as words. -/
theorem toUInt32_le_sub_one {m n : Nat} (h : m < n) (hn : n ≤ UInt32.size) :
    m.toUInt32 ≤ (n - 1).toUInt32 := by
  rw [UInt32.le_iff_toNat_le, Nat.toUInt32_eq, Nat.toUInt32_eq,
    UInt32.toNat_ofNat_of_lt' (Nat.lt_of_lt_of_le h hn), UInt32.toNat_ofNat_of_lt' (by omega)]
  omega

theorem le_add_of_le_sub {x max : Word} {n : Nat} (h : n ≤ max.toNat - x.toNat) (le : x ≤ max) :
    x ≤ x + n.toUInt32 := by
  rw [UInt32.le_iff_toNat_le, toNat_add_of_le_sub h le]
  omega

theorem add_le_of_le_sub {x max : Word} {n : Nat} (h : n ≤ max.toNat - x.toNat) (le : x ≤ max) :
    x + n.toUInt32 ≤ max := by
  have hle : x.toNat ≤ max.toNat := le
  rw [UInt32.le_iff_toNat_le, toNat_add_of_le_sub h le]
  omega

end Word

end Hashwork
