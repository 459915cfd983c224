import Hashwork.Proofs.Target
import Mathlib.Algebra.Order.Floor.Semifield
import Mathlib.Data.Rat.Floor
import Mathlib.Tactic.NormNum

/-!
# The number in a compact form

A compact form stands for a mantissa times a power of 256, which may be a fraction.  The target that it expands
to holds the whole part of that number, modulo `2 ^ 256`.  Expanding shifts, subtracts and writes by index; a
guarded expansion, which tests each of these before it is done, comes to the same target, so no test ever
fails.
-/

namespace Hashwork

/-! ## Numbers by their bytes -/

theorem Word.toNat_littleEndianByte_eq_div (x : Word) (i : Fin 4) :
    (x.littleEndianByte i).toNat = x.toNat / 256 ^ i.val % 256 := by
  rw [toNat_littleEndianByte, Nat.shiftRight_eq_div_pow, Nat.pow_mul]

/-- The digits of a number that has been moved up by whole digits. -/
theorem mul_pow_div_pow_mod (m s k : Nat) :
    m * 256 ^ s / 256 ^ k % 256 = if k < s then 0 else m / 256 ^ (k - s) % 256 := by
  split
  · rename_i hlt
    obtain ⟨j, rfl⟩ := Nat.exists_eq_add_of_lt hlt
    have hsplit : m * 256 ^ (k + j + 1) = 256 ^ k * (m * 256 ^ j * 256) := by ring
    rw [hsplit, Nat.mul_div_cancel_left _ (Nat.pow_pos (by decide)), Nat.mul_mod_left]
  · rename_i hle
    obtain ⟨j, rfl⟩ := Nat.exists_eq_add_of_le (Nat.le_of_not_lt hle)
    rw [Nat.add_sub_cancel_left, pow_add, Nat.mul_comm m,
      Nat.mul_div_mul_left _ _ (Nat.pow_pos (by decide))]

namespace Target

/-! ## The expansion as a number -/

/-- The exponent of a compact form. -/
def exponent (bits : Word) : Nat := bits.toNat >>> 24

/-- Its mantissa, which is without the sign. -/
def mantissa (bits : Word) : Nat := bits.toNat &&& 0x7fffff

theorem mantissa_lt (bits : Word) : mantissa bits < 256 ^ 3 :=
  Nat.lt_of_le_of_lt Nat.and_le_right (by decide)

theorem toNat_exponent (bits : Word) : (bits >>> 24).toNat = exponent bits :=
  UInt32.toNat_shiftRight bits 24

theorem toNat_mantissa (bits : Word) : (bits &&& (0x7fffff : Word)).toNat = mantissa bits :=
  UInt32.toNat_and bits 0x7fffff

/-- Where the exponent is small, the mantissa loses its last bytes. -/
theorem toNat_mantissa_shiftRight (bits : Word) {e : Nat} :
    ((bits &&& (0x7fffff : Word)) >>> (8 * (3 - e)).toUInt32).toNat = mantissa bits / 256 ^ (3 - e) := by
  have hplaces : (8 * (3 - e)).toUInt32.toNat % 32 = 8 * (3 - e) := by
    rw [Nat.toUInt32_eq, UInt32.toNat_ofNat_of_lt' (by rw [UInt32.size]; omega)]
    omega
  rw [UInt32.toNat_shiftRight, hplaces, toNat_mantissa, Nat.shiftRight_eq_div_pow, Nat.pow_mul]

theorem mantissa_div_lt (bits : Word) (n : Nat) : mantissa bits / n < 256 ^ 3 :=
  Nat.lt_of_le_of_lt (Nat.div_le_self _ _) (mantissa_lt bits)

theorem value_ofCompact_of_le {bits : Word} (h : exponent bits ≤ 3) :
    (ofCompact bits).bytes.value = mantissa bits / 256 ^ (3 - exponent bits) := by
  have hsmall := mantissa_div_lt bits (256 ^ (3 - exponent bits))
  have hdigits : ∀ k, ∀ hk : k < 32, (ofCompact bits).bytes[k].toNat =
      mantissa bits / 256 ^ (3 - exponent bits) / 256 ^ k % 256 := by
    intro k hk
    simp only [ofCompact, toNat_exponent, if_pos h, Vector.getElem_ofFn]
    split
    · rw [Word.toNat_littleEndianByte_eq_div, toNat_mantissa_shiftRight]
    · rename_i hge
      have hpow : 256 ^ 3 ≤ 256 ^ k := Nat.pow_le_pow_right (by decide) (by omega)
      rw [Nat.div_eq_of_lt (Nat.lt_of_lt_of_le hsmall hpow)]
      rfl
  rw [Bytes.value_eq_mod hdigits]
  exact Nat.mod_eq_of_lt (Nat.lt_trans hsmall (by norm_num))

theorem value_ofCompact_of_lt {bits : Word} (h : 3 < exponent bits) :
    (ofCompact bits).bytes.value = mantissa bits * 256 ^ (exponent bits - 3) % 2 ^ 256 := by
  have hrange : (2 : ℕ) ^ 256 = 256 ^ 32 := by norm_num
  rw [hrange]
  apply Bytes.value_eq_mod
  intro k hk
  simp only [ofCompact, toNat_exponent, if_neg (Nat.not_le.mpr h), Vector.getElem_ofFn,
    mul_pow_div_pow_mod]
  split
  · rename_i hinside
    rw [if_neg (Nat.not_lt.mpr hinside.1), Word.toNat_littleEndianByte_eq_div, toNat_mantissa]
  · rename_i houtside
    split
    · rfl
    · have hpow : 256 ^ 3 ≤ 256 ^ (k - (exponent bits - 3)) :=
        Nat.pow_le_pow_right (by decide) (by omega)
      rw [Nat.div_eq_of_lt (Nat.lt_of_lt_of_le (mantissa_lt bits) hpow)]
      rfl

/-- The number that a compact form stands for. -/
def number (bits : Word) : ℚ := mantissa bits * 256 ^ ((exponent bits : ℤ) - 3)

theorem floor_number_of_le {bits : Word} (h : exponent bits ≤ 3) :
    ⌊number bits⌋₊ = mantissa bits / 256 ^ (3 - exponent bits) := by
  have hexponent : (exponent bits : ℤ) - 3 = -((3 - exponent bits : ℕ) : ℤ) := by omega
  have hdiv : number bits = (mantissa bits : ℚ) / ((256 ^ (3 - exponent bits) : ℕ) : ℚ) := by
    rw [number, hexponent, zpow_neg, zpow_natCast, div_eq_mul_inv]
    push_cast
    rfl
  rw [hdiv, Nat.floor_div_eq_div]

theorem floor_number_of_lt {bits : Word} (h : 3 < exponent bits) :
    ⌊number bits⌋₊ = mantissa bits * 256 ^ (exponent bits - 3) := by
  have hexponent : (exponent bits : ℤ) - 3 = ((exponent bits - 3 : ℕ) : ℤ) := by omega
  have hmul : number bits = ((mantissa bits * 256 ^ (exponent bits - 3) : ℕ) : ℚ) := by
    rw [number, hexponent, zpow_natCast]
    push_cast
    rfl
  rw [hmul, Nat.floor_natCast]

theorem value_ofCompact (bits : Word) :
    (ofCompact bits).bytes.value = ⌊number bits⌋₊ % 2 ^ 256 := by
  rcases Nat.lt_or_ge 3 (exponent bits) with hlt | hle
  · rw [value_ofCompact_of_lt hlt, floor_number_of_lt hlt]
  · have hsmall := mantissa_div_lt bits (256 ^ (3 - exponent bits))
    rw [value_ofCompact_of_le hle, floor_number_of_le hle]
    exact (Nat.mod_eq_of_lt (Nat.lt_trans hsmall (by norm_num))).symm

theorem number_nonneg (bits : Word) : 0 ≤ number bits :=
  mul_nonneg (Nat.cast_nonneg _) (zpow_nonneg (by norm_num) _)

/-- A number of at most 256 bits is compared as it is, even if it is a fraction. -/
theorem accepts_ofCompact_iff {bits : Word} (hfits : number bits < 2 ^ 256) (hash : Digest) :
    (ofCompact bits).accepts hash = true ↔ (hash.value : ℚ) ≤ number bits := by
  have hfloor : ⌊number bits⌋₊ < 2 ^ 256 := by
    rw [Nat.floor_lt (number_nonneg bits)]
    exact_mod_cast hfits
  rw [accepts_iff, value_ofCompact, Nat.mod_eq_of_lt hfloor, Nat.le_floor_iff (number_nonneg bits)]

end Target

/-! ## The guarded expansion -/

/-- The difference of two numbers, if it is one. -/
def difference? (m n : Nat) : Option Nat :=
  if n ≤ m then some (m - n) else none

theorem difference?_of_le {m n : Nat} (h : n ≤ m) : difference? m n = some (m - n) :=
  if_pos h

/-- A word shifted by fewer places than it has. -/
def Word.shiftRight? (x : Word) (places : Nat) : Option Word :=
  if places < 32 then some (x >>> places.toUInt32) else none

theorem Word.shiftRight?_of_lt (x : Word) {places : Nat} (h : places < 32) :
    x.shiftRight? places = some (x >>> places.toUInt32) :=
  if_pos h

namespace Bytes

variable {n : Nat}

/-- Writes bytes of a word into the places from `start` on, and passes over places that there are not. -/
def place (x : Word) (start : Nat) (which : List (Fin 4)) (bytes : Bytes n) : Bytes n :=
  which.foldl (fun bytes i ↦ bytes.setIfInBounds (start + i.val) (x.littleEndianByte i)) bytes

/-- The same where there have to be such places. -/
def place? (x : Word) (start : Nat) (which : List (Fin 4)) (bytes : Bytes n) : Option (Bytes n) :=
  if ∀ i ∈ which, start + i.val < n then some (bytes.place x start which) else none

theorem place_getElem_of_ne (x : Word) (start : Nat) (which : List (Fin 4)) (bytes : Bytes n) {k : Nat}
    (hk : k < n) (h : ∀ i ∈ which, start + i.val ≠ k) : (bytes.place x start which)[k] = bytes[k] := by
  induction which generalizing bytes with
  | nil => rfl
  | cons i which ih =>
    obtain ⟨hne, hrest⟩ := List.forall_mem_cons.mp h
    exact (ih _ hrest).trans (Vector.getElem_setIfInBounds_ne hk hne)

theorem place_getElem (x : Word) (start : Nat) (which : List (Fin 4)) (bytes : Bytes n) {i : Fin 4}
    (hmem : i ∈ which) (hi : start + i.val < n) :
    (bytes.place x start which)[start + i.val] = x.littleEndianByte i := by
  induction which generalizing bytes with
  | nil => cases hmem
  | cons j which ih =>
    by_cases hlater : i ∈ which
    · exact ih _ hlater
    · obtain rfl : i = j := (List.mem_cons.mp hmem).resolve_right hlater
      have hne : ∀ j ∈ which, start + j.val ≠ start + i.val := by
        intro j hj heq
        have hji : j = i := Fin.ext (Nat.add_left_cancel heq)
        exact hlater (hji ▸ hj)
      exact (place_getElem_of_ne x start which _ hi hne).trans (Vector.getElem_setIfInBounds_self hi)

end Bytes

namespace Target

/-- The expansion with a test before each shift, each difference, and each write but those that may be passed
over. -/
def guardedOfCompact (bits : Word) : Option Target := do
  let exponent := (← bits.shiftRight? 24).toNat
  let mantissa := bits &&& (0x7fffff : Word)
  if exponent ≤ 3 then
    let small ← mantissa.shiftRight? (8 * (← difference? 3 exponent))
    let bytes ← Bytes.place? small 0 (List.finRange 4) (Vector.replicate 32 0)
    return ⟨bytes⟩
  else
    let start ← difference? exponent 3
    return ⟨Bytes.place mantissa start ((List.finRange 4).take 3) (Vector.replicate 32 0)⟩

/-- The bytes of a word, in the first places. -/
theorem place_low (small : Word) :
    Bytes.place small 0 (List.finRange 4) (Vector.replicate 32 0) =
      Vector.ofFn fun i : Fin 32 ↦ if h : i.val < 4 then small.littleEndianByte ⟨i.val, h⟩ else 0 := by
  ext k hk : 1
  rw [Vector.getElem_ofFn]
  dsimp only
  split
  · rename_i hlt
    have hplaced := Bytes.place_getElem small 0 (List.finRange 4) (Vector.replicate 32 0)
      (List.mem_finRange ⟨k, hlt⟩) (by omega)
    simpa using hplaced
  · rename_i hge
    rw [Bytes.place_getElem_of_ne small 0 _ _ hk fun i _ ↦ by omega, Vector.getElem_replicate]

theorem mem_low_iff (i : Fin 4) : i ∈ (List.finRange 4).take 3 ↔ i.val < 3 := by
  revert i
  decide

/-- The first three bytes of a word, in the places below the exponent that there are. -/
theorem place_high (x : Word) {e : Nat} (h : 3 < e) :
    Bytes.place x (e - 3) ((List.finRange 4).take 3) (Vector.replicate 32 0) =
      Vector.ofFn fun i : Fin 32 ↦ if h : e - 3 ≤ i.val ∧ i.val < e then
        x.littleEndianByte ⟨i.val - (e - 3), by omega⟩ else 0 := by
  ext k hk : 1
  rw [Vector.getElem_ofFn]
  dsimp only
  split
  · rename_i hinside
    obtain ⟨j, rfl⟩ := Nat.exists_eq_add_of_le hinside.1
    have hj : j < 3 := by omega
    have hplaced := Bytes.place_getElem x (e - 3) ((List.finRange 4).take 3) (Vector.replicate 32 0)
      ((mem_low_iff ⟨j, by omega⟩).mpr hj) hk
    simpa using hplaced
  · rename_i houtside
    rw [Bytes.place_getElem_of_ne x (e - 3) _ _ hk, Vector.getElem_replicate]
    intro i hmem heq
    have hi := (mem_low_iff i).mp hmem
    omega

theorem guardedOfCompact_eq (bits : Word) : guardedOfCompact bits = some (ofCompact bits) := by
  have hexponent : bits.shiftRight? 24 = some (bits >>> 24) := Word.shiftRight?_of_lt bits (by decide)
  rw [guardedOfCompact, ofCompact, hexponent]
  rcases Nat.lt_or_ge 3 (bits >>> 24).toNat with hlt | hle
  · simp only [Option.bind_eq_bind, Option.bind_some, if_neg (Nat.not_le.mpr hlt),
      difference?_of_le (Nat.le_of_lt hlt), place_high _ hlt]
    rfl
  · have hplaces : 8 * (3 - (bits >>> 24).toNat) < 32 := by omega
    simp only [Option.bind_eq_bind, Option.bind_some, if_pos hle, difference?_of_le hle,
      Word.shiftRight?_of_lt _ hplaces]
    rw [Bytes.place?, if_pos (by decide), place_low]
    rfl

/-- Expanding never leaves the range of a shift, a difference or an index.  It comes to the whole part of the
number, of which the top word has the top 32 bits; and a number that fits is what hashes are compared with. -/
theorem ofCompact_expands (bits : Word) :
    guardedOfCompact bits = some (ofCompact bits) ∧
    (ofCompact bits).bytes.value =
      (if exponent bits ≤ 3 then mantissa bits / 256 ^ (3 - exponent bits)
        else mantissa bits * 256 ^ (exponent bits - 3) % 2 ^ 256) ∧
    (ofCompact bits).topWord.toNat = (ofCompact bits).bytes.value / 2 ^ 224 ∧
    ((mantissa bits : ℚ) * 256 ^ ((exponent bits : ℤ) - 3) < 2 ^ 256 → ∀ hash : Digest,
      (ofCompact bits).accepts hash = true ↔
        (hash.value : ℚ) ≤ mantissa bits * 256 ^ ((exponent bits : ℤ) - 3)) := by
  refine ⟨guardedOfCompact_eq bits, ?_, ?_, fun hfits ↦ accepts_ofCompact_iff hfits⟩
  · split
    · rename_i hle
      exact value_ofCompact_of_le hle
    · rename_i hlt
      exact value_ofCompact_of_lt (Nat.lt_of_not_le hlt)
  · have htop : (256 : ℕ) ^ 28 = 2 ^ 224 := by norm_num
    rw [toNat_topWord, htop]

example : (ofCompact 0x03001234).bytes.value = 0x1234 := by decide

/-- Of the mantissa only the last byte has a place. -/
example : (ofCompact 0x22123456).bytes.value = 0x56 * 256 ^ 31 := by decide

/-- The greatest target that a header may state. -/
theorem accepts_ofCompact_zeros :
    (mantissa 0x1d00ffff : ℚ) * 256 ^ ((exponent 0x1d00ffff : ℤ) - 3) < 2 ^ 256 ∧
      (ofCompact 0x1d00ffff).accepts (Vector.replicate 32 0) = true := by
  have hfits : (mantissa 0x1d00ffff : ℚ) * 256 ^ ((exponent 0x1d00ffff : ℤ) - 3) < 2 ^ 256 := by
    have hmantissa : mantissa 0x1d00ffff = 0xffff := by decide
    have hexponent : exponent 0x1d00ffff = 29 := by decide
    rw [hmantissa, hexponent]
    norm_num
  have hzero : Bytes.value (Vector.replicate 32 0) = 0 := by decide
  refine ⟨hfits, ((ofCompact_expands 0x1d00ffff).2.2.2 hfits _).mpr ?_⟩
  rw [hzero]
  exact number_nonneg 0x1d00ffff

end Target

end Hashwork
