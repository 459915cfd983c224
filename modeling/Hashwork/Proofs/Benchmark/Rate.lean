import Hashwork.Benchmark.Result
import Hashwork.Proofs.Binary64.Order

/-!
# Rates

A sample has a rate if any time was measured, be it a nanosecond.  The rate is then a number and not negative,
whatever the sample, and so it is above the rate of a benchmark that failed.
-/

namespace Hashwork

open Binary64

/-! ## Doubles that occur in a rate -/

section Constants

theorem between_billion : Between 29 29 (1e9 : Float) := by
  have hunpack : (1e9 : Float).toModel.unpack = .finite .positive (1000000000 * 2 ^ 23) (-23) (by decide) := rfl
  exact between_of_unpack_eq hunpack (by decide)

theorem between_million : Between 19 19 (1e6 : Float) := by
  have hunpack : (1e6 : Float).toModel.unpack = .finite .positive (1000000 * 2 ^ 33) (-33) (by decide) := rfl
  exact between_of_unpack_eq hunpack (by decide)

/-- The double that numbers without a fraction are multiplied by. -/
theorem between_one : Between 0 0 (Float.ofBits 0x3FF0000000000000) := by
  have hunpack : (Float.ofBits 0x3FF0000000000000).toModel.unpack =
      .finite .positive (2 ^ 52) (-52) (by decide) := rfl
  exact between_of_unpack_eq hunpack Nat.log2_two_pow

theorem isZero_toFloat_natZero : IsZero (Nat.toFloat 0) := rfl

/-- A natural number that fits is converted by way of 64 bits. -/
theorem between_natToFloat {n : Nat} (hpos : 0 < n) (hlt : n < 2 ^ 53) : Between 0 66 n.toFloat := by
  have hconvert : n.toFloat = n.toUInt64.toFloat * Float.ofBits 0x3FF0000000000000 :=
    dif_pos ⟨hlt, Nat.zero_le 22⟩
  have hne : n.toUInt64 ≠ 0 := by
    intro hzero
    have hback : n.toUInt64.toNat = n := UInt64.toNat_ofNat_of_lt' (hlt.trans (by decide))
    rw [hzero] at hback
    exact hpos.ne hback
  rw [hconvert]
  exact (between_toFloat hne).mul between_one (by decide) (by decide)

end Constants

namespace Duration

theorem isZero_toFloat : IsZero zero.toFloat := rfl

/-- A nanosecond is not too short to be seen. -/
theorem between_toFloat {d : Duration} (h : d ≠ zero) : Between (-30) 66 d.toFloat := by
  obtain ⟨seconds, nanos⟩ := d
  have hfraction (hnanos : nanos ≠ 0) : Between (-30) 38 (nanos.val.toFloat / 1e9) := by
    have hpos : 0 < nanos.val := Nat.pos_of_ne_zero fun hzero ↦ hnanos (Fin.ext hzero)
    have hlt : nanos.val < 2 ^ 53 := nanos.isLt.trans (by decide)
    exact (between_natToFloat hpos hlt).div between_billion (by decide) (by decide)
  have hnone : IsZero (Nat.toFloat 0 / 1e9) := isZero_toFloat_natZero.div between_billion
  rw [toFloat]
  by_cases hseconds : seconds = 0
  · subst hseconds
    have hnanos : nanos ≠ 0 := by
      rintro rfl
      exact h rfl
    exact (isZero_toFloat_zero.add_between (hfraction hnanos) (by decide) (by decide)).mono (by decide)
      (by decide)
  · have hwhole := Binary64.between_toFloat hseconds
    by_cases hnanos : nanos = 0
    · subst hnanos
      exact (hwhole.add_isZero hnone (by decide) (by decide)).mono (by decide) (by decide)
    · exact (hwhole.add (hfraction hnanos) (by decide) (by decide) (by decide)).mono (by decide)
        (by decide)

end Duration

namespace Sample

variable {s : Sample}

theorem rate?_of_zero (h : s.elapsed = .zero) : s.rate? = none := by
  rw [rate?, h]
  exact if_neg (Duration.isZero_toFloat.mul between_million).not_pos

theorem exists_rate? (h : s.elapsed ≠ .zero) :
    ∃ rate, s.rate? = some rate ∧ rate.isNaN = false ∧ 0 ≤ rate := by
  have hmicros : Between (-11) 87 (s.elapsed.toFloat * 1e6) :=
    (Duration.between_toFloat h).mul between_million (by decide) (by decide)
  refine ⟨s.nonces.toFloat / (s.elapsed.toFloat * 1e6), if_pos hmicros.pos, ?_⟩
  by_cases hnonces : s.nonces = 0
  · have hzero := isZero_toFloat_zero.div hmicros
    rw [hnonces]
    exact ⟨hzero.isNaN, hzero.nonneg⟩
  · have hrate := (Binary64.between_toFloat hnonces).div hmicros (by decide) (by decide)
    exact ⟨hrate.isNaN, hrate.nonneg⟩

end Sample

end Hashwork
