import Hashwork.Proofs.Binary64.Rounding

/-!
# How large sums, products and quotients of doubles are

Zero and the positive numbers between given powers of two, under the operations that a rate is computed with.
As long as the bounds stay well within the range of doubles, no result is infinite or undefined, and no
positive result becomes zero.
-/

namespace Hashwork.Binary64

open Float.Model Float.Model.UnpackedFloat

/-- A positive double from `2 ^ lo` up to below `2 ^ (hi + 1)`. -/
def Between (lo hi : Int) (x : Float) : Prop :=
  Within lo hi x.toModel.unpack

def IsZero (x : Float) : Prop :=
  x.toModel.unpack = .zero .positive

theorem isZero_zero : IsZero (0 : Float) := rfl

theorem Between.mono {lo hi lo' hi' : Int} {x : Float} (h : Between lo hi x) (hlo : lo' ≤ lo)
    (hhi : hi ≤ hi') : Between lo' hi' x :=
  Within.mono h hlo hhi

theorem between_of_within {lo hi : Int} {x : UnpackedFloat} (h : Within lo hi x) (hlo : -1022 ≤ lo)
    (hhi : hi ≤ 1023) : Between lo hi (.ofModel (.pack x)) := by
  rw [Between, unpack_pack_of_within h hlo hhi]
  exact h

theorem between_of_unpack_eq {x : Float} {m : Nat} {e : Int} {hpos : 0 < m}
    (hx : x.toModel.unpack = .finite .positive m e hpos) (hlog : m.log2 = 52) :
    Between (e + 52) (e + 52) x := by
  rw [Between, hx]
  exact .intro hpos hlog (Int.le_refl _) (Int.le_refl _)

/-! ## Logarithms of sums, products and quotients -/

section Logarithms

variable {a b n : Nat}

theorem log2_mono (ha : 0 < a) (h : a ≤ b) : a.log2 ≤ b.log2 :=
  (Nat.le_log2 (ha.trans_le h).ne').mpr ((Nat.log2_self_le ha.ne').trans h)

theorem log2_add_le (ha : 0 < a) (hna : a.log2 ≤ n) (hnb : b.log2 ≤ n) : (a + b).log2 ≤ n + 1 := by
  have hsum : a + b ≠ 0 := (Nat.add_pos_left ha b).ne'
  have hbelow {c : Nat} (hc : c.log2 ≤ n) : c < 2 ^ (n + 1) :=
    Nat.lt_log2_self.trans_le (Nat.pow_le_pow_right Nat.two_pos (Nat.succ_le_succ hc))
  apply Nat.lt_succ_iff.mp
  apply (Nat.log2_lt hsum).mpr
  calc
    a + b < 2 ^ (n + 1) + 2 ^ (n + 1) := Nat.add_lt_add (hbelow hna) (hbelow hnb)
    _ = 2 ^ (n + 1 + 1) := (Nat.two_pow_succ (n + 1)).symm

theorem log2_mul_bounds (ha : 0 < a) (hb : 0 < b) :
    a.log2 + b.log2 ≤ (a * b).log2 ∧ (a * b).log2 ≤ a.log2 + b.log2 + 1 := by
  have hab : a * b ≠ 0 := (Nat.mul_pos ha hb).ne'
  constructor
  · apply (Nat.le_log2 hab).mpr
    rw [Nat.pow_add]
    exact Nat.mul_le_mul (Nat.log2_self_le ha.ne') (Nat.log2_self_le hb.ne')
  · apply Nat.lt_succ_iff.mp
    apply (Nat.log2_lt hab).mpr
    calc
      a * b < 2 ^ (a.log2 + 1) * 2 ^ (b.log2 + 1) := Nat.mul_lt_mul'' Nat.lt_log2_self Nat.lt_log2_self
      _ = 2 ^ (a.log2 + b.log2 + 1 + 1) := by rw [← Nat.pow_add]; congr 1; omega

theorem log2_div_bounds (ha : a.log2 = 52) (hb : b.log2 = 52) :
    52 ≤ (a * 2 ^ 53 / b).log2 ∧ (a * 2 ^ 53 / b).log2 ≤ 53 := by
  obtain ⟨hage, halt⟩ := bounds_of_log2_eq ha (by decide)
  obtain ⟨hbge, hblt⟩ := bounds_of_log2_eq hb (by decide)
  have hbpos : 0 < b := (Nat.two_pow_pos 52).trans_le hbge
  have hge : 2 ^ 52 ≤ a * 2 ^ 53 / b := by
    rw [Nat.le_div_iff_mul_le hbpos]
    exact Nat.mul_le_mul hage hblt.le
  have hlt : a * 2 ^ 53 / b < 2 ^ 54 := by
    rw [Nat.div_lt_iff_lt_mul hbpos]
    omega
  have hpos : a * 2 ^ 53 / b ≠ 0 := ((Nat.two_pow_pos 52).trans_le hge).ne'
  exact ⟨(Nat.le_log2 hpos).mpr hge, Nat.lt_succ_iff.mp ((Nat.log2_lt hpos).mpr hlt)⟩

end Logarithms

/-! ## Conversions -/

section Conversions

theorem normalize_of_pos {m : Nat} (h : 0 < m) (e : Int) (sign : Sign) :
    UnpackedFloat.normalize Format.binary64 m e sign = UnpackedFloat.round Format.binary64 .positive m e := by
  have hcompare : compare (m : Int) 0 = .gt := Int.compare_eq_gt.mpr (Int.natCast_pos.mpr h)
  rw [UnpackedFloat.normalize, hcompare]
  rfl

theorem isZero_toFloat_zero : IsZero (UInt64.toFloat 0) := rfl

theorem between_toFloat {n : UInt64} (h : n ≠ 0) : Between 0 64 n.toFloat := by
  have hpos : 0 < n.toNat := Nat.pos_of_ne_zero fun hzero ↦ h (UInt64.toNat_inj.mp hzero)
  have hlog : n.toNat.log2 ≤ 63 := Nat.lt_succ_iff.mp ((Nat.log2_lt hpos.ne').mpr n.toNat_lt)
  have hround := @within_round n.toNat 0 hpos (by omega)
  rw [← normalize_of_pos hpos 0 .positive] at hround
  exact between_of_within (hround.mono (by omega) (by omega)) (by omega) (by omega)

end Conversions

/-! ## Operations -/

section Operations

variable {x y : Float} {a b c d : Int}

/-- What a sum is packed from. -/
theorem unpack_add (x y : Float) : (x + y).toModel.unpack =
    (Float.Model.pack (UnpackedFloat.add Format.binary64 x.toModel.unpack y.toModel.unpack)).unpack :=
  rfl

theorem unpack_mul (x y : Float) : (x * y).toModel.unpack =
    (Float.Model.pack (UnpackedFloat.mul Format.binary64 x.toModel.unpack y.toModel.unpack)).unpack :=
  rfl

theorem unpack_div (x y : Float) : (x / y).toModel.unpack =
    (Float.Model.pack (UnpackedFloat.div Format.binary64 x.toModel.unpack y.toModel.unpack)).unpack :=
  rfl

theorem unpack_pack_zero : (Float.Model.pack (.zero .positive)).unpack = .zero .positive := rfl

theorem IsZero.mul (hx : IsZero x) (hy : Between a b y) : IsZero (x * y) := by
  obtain ⟨m, e, hpos, heq, -⟩ := hy.exists_finite
  rw [IsZero, unpack_mul, hx, heq]
  exact unpack_pack_zero

theorem IsZero.div (hx : IsZero x) (hy : Between a b y) : IsZero (x / y) := by
  obtain ⟨m, e, hpos, heq, -⟩ := hy.exists_finite
  rw [IsZero, unpack_div, hx, heq]
  exact unpack_pack_zero

theorem IsZero.add_between (hx : IsZero x) (hy : Between a b y) (ha : -1022 ≤ a) (hb : b ≤ 1023) :
    Between a b (x + y) := by
  obtain ⟨m, e, hpos, heq, -⟩ := hy.exists_finite
  rw [Between, heq] at hy
  rw [Between, unpack_add, hx, heq]
  exact between_of_within hy ha hb

theorem Between.add_isZero (hx : Between a b x) (hy : IsZero y) (ha : -1022 ≤ a) (hb : b ≤ 1023) :
    Between a b (x + y) := by
  obtain ⟨m, e, hpos, heq, -⟩ := hx.exists_finite
  rw [Between, heq] at hx
  rw [Between, unpack_add, heq, hy]
  exact between_of_within hx ha hb

theorem Between.add (hx : Between a b x) (hy : Between c d y) (ha : -1022 ≤ a) (hb : b ≤ 1021)
    (hd : d ≤ 1021) : Between a (max b d + 2) (x + y) := by
  obtain ⟨m, e, hpos, heq, hlog, hlo, hhi⟩ := hx.exists_finite
  obtain ⟨m', e', hpos', heq', hlog', hlo', hhi'⟩ := hy.exists_finite
  rw [Between, unpack_add, heq, heq']
  refine between_of_within ?_ ha (by omega)
  simp only [UnpackedFloat.add, decreaseExponent, Nat.shiftLeft_eq, Sign.apply]
  generalize hk : (e - min e e').toNat = k
  generalize hk' : (e' - min e e').toNat = k'
  have hshifted := log2_mul_two_pow hpos k
  have hshifted' := log2_mul_two_pow hpos' k'
  have hterm : 0 < m * 2 ^ k := Nat.mul_pos hpos (Nat.two_pow_pos k)
  have hge : (m * 2 ^ k).log2 ≤ (m * 2 ^ k + m' * 2 ^ k').log2 := log2_mono hterm (Nat.le_add_right _ _)
  have hle : (m * 2 ^ k + m' * 2 ^ k').log2 ≤ max (52 + k) (52 + k') + 1 :=
    log2_add_le hterm (by omega) (by omega)
  have hsum : 0 < m * 2 ^ k + m' * 2 ^ k' := Nat.add_pos_left hterm _
  rw [← Int.natCast_add, normalize_of_pos hsum]
  exact (within_round hsum (by omega)).mono (by omega) (by omega)

theorem Between.mul (hx : Between a b x) (hy : Between c d y) (hac : -1022 ≤ a + c) (hbd : b + d ≤ 1021) :
    Between (a + c) (b + d + 2) (x * y) := by
  obtain ⟨m, e, hpos, heq, hlog, hlo, hhi⟩ := hx.exists_finite
  obtain ⟨m', e', hpos', heq', hlog', hlo', hhi'⟩ := hy.exists_finite
  rw [Between, unpack_mul, heq, heq']
  refine between_of_within ?_ hac (by omega)
  obtain ⟨hge, hle⟩ := log2_mul_bounds hpos hpos'
  exact (within_roundWithAccuracy (by omega) (by omega) .exact).mono (by omega) (by omega)

theorem Between.div (hx : Between a b x) (hy : Between c d y) (had : -1021 ≤ a - d) (hbc : b - c ≤ 1022) :
    Between (a - d - 1) (b - c + 1) (x / y) := by
  obtain ⟨m, e, hpos, heq, hlog, hlo, hhi⟩ := hx.exists_finite
  obtain ⟨m', e', hpos', heq', hlog', hlo', hhi'⟩ := hy.exists_finite
  rw [Between, unpack_div, heq, heq']
  refine between_of_within ?_ (by omega) (by omega)
  have htarget : min (e - e')
      (Format.binary64.targetExponent (totalExponent m e - totalExponent m' e')) = e - e' - 53 := by
    change min (e - e') (max ((m.log2 : Int) + 1 + e - (m'.log2 + 1 + e') - 53) (-1074)) = _
    omega
  have hamount : (e - e' - (e - e' - 53)).toNat = 53 := by omega
  simp only [UnpackedFloat.div, divCore, htarget, hamount, Nat.shiftLeft_eq]
  obtain ⟨hge, hle⟩ := log2_div_bounds hlog hlog'
  exact (within_roundWithAccuracy hge (by omega) _).mono (by omega) (by omega)

end Operations

end Hashwork.Binary64
