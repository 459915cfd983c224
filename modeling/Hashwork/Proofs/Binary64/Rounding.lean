import Mathlib

/-!
# Rounding to doubles

Rounding keeps a positive number between the powers of two that it lies between, unless it is so large or so
small that a double has no full mantissa for it.  Between such bounds a double is also packed into its bits
without a loss, so that bounds can be carried through sums, products and quotients.
-/

namespace Hashwork.Binary64

open Float.Model Float.Model.UnpackedFloat

/-- A positive number from `2 ^ lo` up to below `2 ^ (hi + 1)`, with a full mantissa. -/
inductive Within (lo hi : Int) : UnpackedFloat → Prop
  | intro {m : Nat} {e : Int} (hpos : 0 < m) (hlog : m.log2 = 52) (hlo : lo ≤ e + 52)
    (hhi : e + 52 ≤ hi) : Within lo hi (.finite .positive m e hpos)

theorem Within.mono {lo hi lo' hi' : Int} {x : UnpackedFloat} (h : Within lo hi x) (hlo : lo' ≤ lo)
    (hhi : hi ≤ hi') : Within lo' hi' x := by
  cases h with
  | intro hpos hlog hge hle => exact .intro hpos hlog (hlo.trans hge) (hle.trans hhi)

theorem Within.exists_finite {lo hi : Int} {x : UnpackedFloat} (h : Within lo hi x) :
    ∃ m e, ∃ hpos : 0 < m, x = .finite .positive m e hpos ∧ m.log2 = 52 ∧ lo ≤ e + 52 ∧ e + 52 ≤ hi := by
  cases h with
  | intro hpos hlog hlo hhi => exact ⟨_, _, hpos, rfl, hlog, hlo, hhi⟩

/-! ## Logarithms -/

section Logarithms

variable {m : Nat}

theorem bounds_of_log2_eq {k : Nat} (h : m.log2 = k) (hk : k ≠ 0) : 2 ^ k ≤ m ∧ m < 2 ^ (k + 1) := by
  have hm : m ≠ 0 := by
    rintro rfl
    exact hk (h.symm.trans Nat.log2_zero)
  exact (Nat.log2_eq_iff hm).mp h

theorem log2_mul_two_pow (hm : 0 < m) (k : Nat) : (m * 2 ^ k).log2 = m.log2 + k := by
  have hpow : 0 < m * 2 ^ k := Nat.mul_pos hm (Nat.two_pow_pos k)
  apply (Nat.log2_eq_iff hpow.ne').mpr
  rw [Nat.add_right_comm, Nat.pow_add, Nat.pow_add]
  constructor
  · exact Nat.mul_le_mul_right _ (Nat.log2_self_le hm.ne')
  · exact Nat.mul_lt_mul_of_pos_right Nat.lt_log2_self (Nat.two_pow_pos k)

/-- A mantissa without its `k` last bits. -/
theorem log2_div_two_pow {k : Nat} (h : m.log2 = 52 + k) : (m / 2 ^ k).log2 = 52 := by
  obtain ⟨hle, hlt⟩ := bounds_of_log2_eq h (by omega)
  have hge : 2 ^ 52 ≤ m / 2 ^ k := by
    rw [Nat.le_div_iff_mul_le (Nat.two_pow_pos k), ← Nat.pow_add]
    exact hle
  have hpos : m / 2 ^ k ≠ 0 := ((Nat.two_pow_pos 52).trans_le hge).ne'
  apply (Nat.log2_eq_iff hpos).mpr
  refine ⟨hge, ?_⟩
  rw [Nat.div_lt_iff_lt_mul (Nat.two_pow_pos k), ← Nat.pow_add, Nat.add_right_comm]
  exact hlt

end Logarithms

/-! ## One rounding -/

section Shifts

theorem shiftRight_mantissa (em : ExtendedMantissa) (k : Nat) :
    (em >>> k).mantissa = em.mantissa / 2 ^ k := by
  induction k with
  | zero => exact (Nat.div_one _).symm
  | succ k ih =>
    rw [Nat.pow_succ, ← Nat.div_div_eq_div_mul, ← ih]
    rfl

theorem mantissa_ofMantissaAndAccuracy (m : Nat) (accuracy : Accuracy) :
    (ExtendedMantissa.ofMantissaAndAccuracy m accuracy).mantissa = m := by
  cases accuracy with
  | exact => rfl
  | inexact order => cases order <;> rfl

theorem roundToNearestEven_bounds (m : Nat) (accuracy : Accuracy) :
    m ≤ Accuracy.roundToNearestEven m accuracy ∧ Accuracy.roundToNearestEven m accuracy ≤ m + 1 := by
  cases accuracy with
  | exact => exact ⟨Nat.le_refl m, Nat.le_succ m⟩
  | inexact order =>
    cases order with
    | lt => exact ⟨Nat.le_refl m, Nat.le_succ m⟩
    | eq =>
      have hbit : m % 2 ≤ 1 := Nat.le_of_lt_succ (Nat.mod_lt m Nat.two_pos)
      exact ⟨Nat.le_add_right m _, Nat.add_le_add_left hbit m⟩
    | gt => exact ⟨Nat.le_succ m, Nat.le_refl _⟩

/-- A mantissa is rounded to itself or to the next. -/
theorem roundedMantissa_bounds (em : ExtendedMantissa) :
    em.mantissa ≤ em.roundedMantissa ∧ em.roundedMantissa ≤ em.mantissa + 1 :=
  roundToNearestEven_bounds em.mantissa em.accuracy

/-- The rounded mantissa may be the next power of two. -/
theorem exists_log2_roundedMantissa {em : ExtendedMantissa} (h : em.mantissa.log2 = 52) :
    ∃ j ≤ 1, em.roundedMantissa.log2 = 52 + j := by
  obtain ⟨hge, hlt⟩ := bounds_of_log2_eq h (by decide)
  obtain ⟨hge', hle'⟩ := roundedMantissa_bounds em
  rcases Nat.lt_or_ge em.roundedMantissa (2 ^ 53) with hbelow | habove
  · exact ⟨0, Nat.zero_le 1, (Nat.log2_eq_iff (by omega)).mpr ⟨hge.trans hge', hbelow⟩⟩
  · have heq : em.roundedMantissa = 2 ^ 53 := by omega
    exact ⟨1, Nat.le_refl 1, heq ▸ Nat.log2_two_pow⟩

variable {m k : Nat} {e : Int}

/-- A mantissa with `k` bits too many is shifted by them. -/
theorem shiftToTargetExponent_eq (hlog : m.log2 = 52 + k) (hmin : -1074 ≤ e + k) (accuracy : Accuracy) :
    (shiftToTargetExponent Format.binary64 m e accuracy).1.mantissa = m / 2 ^ k ∧
      (shiftToTargetExponent Format.binary64 m e accuracy).2 = e + k := by
  have htarget : Format.binary64.targetExponent (totalExponent m e) = e + k := by
    change max ((m.log2 : Int) + 1 + e - 53) (-1074) = _
    omega
  have hamount : (e + k - e).toNat = k := by omega
  rw [shiftToTargetExponent, htarget, shiftToExponent, hamount]
  refine ⟨?_, rfl⟩
  rw [shiftRight_mantissa, mantissa_ofMantissaAndAccuracy]

theorem within_roundWithAccuracy (hlog : 52 ≤ m.log2) (hmin : -1022 ≤ m.log2 + e) (accuracy : Accuracy) :
    Within (m.log2 + e) (m.log2 + e + 1) (roundWithAccuracy Format.binary64 .positive m e accuracy) := by
  obtain ⟨k, hk⟩ := Nat.exists_eq_add_of_le hlog
  obtain ⟨hmantissa, hexponent⟩ := @shiftToTargetExponent_eq m k e hk (by omega) accuracy
  unfold roundWithAccuracy
  generalize shiftToTargetExponent Format.binary64 m e accuracy = first at hmantissa hexponent ⊢
  obtain ⟨em, e'⟩ := first
  dsimp only at hmantissa hexponent ⊢
  have hlog' : em.mantissa.log2 = 52 := hmantissa ▸ log2_div_two_pow hk
  -- What is rounded up to the next power of two is shifted once more.
  obtain ⟨j, hj, hrounded⟩ := exists_log2_roundedMantissa hlog'
  obtain ⟨hmantissa', hexponent'⟩ :=
    @shiftToTargetExponent_eq em.roundedMantissa j e' hrounded (by omega) .exact
  generalize shiftToTargetExponent Format.binary64 em.roundedMantissa e' .exact = second
    at hmantissa' hexponent' ⊢
  obtain ⟨em', e''⟩ := second
  dsimp only at hmantissa' hexponent' ⊢
  have hlog'' : em'.mantissa.log2 = 52 := hmantissa' ▸ log2_div_two_pow hrounded
  have hpos : em'.mantissa ≠ 0 := by
    intro hzero
    rw [hzero] at hlog''
    cases hlog''
  rw [dif_neg hpos]
  exact .intro _ hlog'' (by omega) (by omega)

/-- A mantissa with too few bits is extended first. -/
theorem within_round (hm : 0 < m) (hmin : -1022 ≤ m.log2 + e) :
    Within (m.log2 + e) (m.log2 + e + 1) (UnpackedFloat.round Format.binary64 .positive m e) := by
  have htarget : Format.binary64.targetExponent (totalExponent m e) = m.log2 + e - 52 := by
    change max ((m.log2 : Int) + 1 + e - 53) (-1074) = _
    omega
  rw [UnpackedFloat.round, htarget]
  simp only [decreaseExponent, Nat.shiftLeft_eq]
  generalize hamount : (e - (m.log2 + e - 52)).toNat = k
  have hlog := log2_mul_two_pow hm k
  have hsum : ((m * 2 ^ k).log2 : Int) + (e - k) = m.log2 + e := by omega
  rw [← hsum]
  exact within_roundWithAccuracy (by omega) (by omega) .exact

end Shifts

/-! ## Packing -/

section Packing

/-- The leading bit is not stored. -/
theorem toNat_append_ofNat {m : Nat} (h : m.log2 = 52) : (1#1 ++ BitVec.ofNat 52 m).toNat = m := by
  obtain ⟨hge, hlt⟩ := bounds_of_log2_eq h (by decide)
  have hmod := Nat.mod_lt m (Nat.two_pow_pos 52)
  rw [BitVec.toNat_append, BitVec.toNat_ofNat, BitVec.toNat_ofNat, ← Nat.shiftLeft_add_eq_or_of_lt hmod,
    Nat.shiftLeft_eq]
  omega

theorem unpack_pack_of_within {lo hi : Int} {x : UnpackedFloat} (h : Within lo hi x) (hlo : -1022 ≤ lo)
    (hhi : hi ≤ 1023) : (Float.Model.pack x).unpack = x := by
  cases h with
  | @intro m e hpos hlog hge hle =>
    have hexponent : (BitVec.ofNat 11 (e + 1075).toNat).toNat = (e + 1075).toNat := by
      rw [BitVec.toNat_ofNat, Nat.mod_eq_of_lt (by omega)]
    have hzero : BitVec.ofNat 11 (e + 1075).toNat ≠ 0#11 := by
      intro heq
      rw [heq] at hexponent
      change 0 = (e + 1075).toNat at hexponent
      omega
    have hones : BitVec.ofNat 11 (e + 1075).toNat ≠ -1#11 := by
      intro heq
      rw [heq] at hexponent
      change 2047 = (e + 1075).toNat at hexponent
      omega
    have hpack : UnpackedFloat.pack Format.binary64 (.finite .positive m e hpos) =
        packComponents Format.binary64 .positive (BitVec.ofNat 11 (e + 1075).toNat)
          (BitVec.ofNat 52 m) := by
      have hbiased : (e + 1023 + 52).toNat = (e + 1075).toNat := by omega
      change (if 2 ^ 11 ≤ (e + 1023 + 52).toNat + 1 then _ else if m.log2 + 1 = 53 then
        packComponents Format.binary64 .positive (BitVec.ofNat 11 (e + 1023 + 52).toNat) _ else _) = _
      rw [if_neg (by omega), if_pos (by omega), hbiased]
    change UnpackedFloat.unpack Format.binary64 (UnpackedFloat.pack Format.binary64 _) = _
    rw [hpack, UnpackedFloat.unpack]
    simp only [unpackMantissa_packComponents, unpackExponent_packComponents,
      unpackSign_packComponents, Sign.ofBitVec_toBitVec, if_neg hones, if_neg hzero]
    have hback : ((BitVec.ofNat 11 (e + 1075).toNat).toNat : Int) - ((1023 : Nat) + (52 : Nat)) = e := by
      omega
    congr 1
    exact toNat_append_ofNat hlog

end Packing

end Hashwork.Binary64
