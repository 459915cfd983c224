import Hashwork.Proofs.Binary64.Magnitude
import Mathlib.Data.Int.Order.Basic
import Mathlib.Data.Prod.Lex

/-!
# Comparing doubles

Doubles that are numbers compare like their ranks, which are linearly ordered.  Zero has one rank, whatever
its sign.
-/

namespace Hashwork.Binary64

open Float.Model Float.Model.UnpackedFloat

/-- Where a number stands among the others. -/
def rank : UnpackedFloat → Int ×ₗ Int ×ₗ Int
  | .infinity .negative => toLex (-2, toLex (0, 0))
  | .finite .negative m e _ => toLex (-1, toLex (-e, -m))
  | .zero _ | .notANumber => toLex (0, toLex (0, 0))
  | .finite .positive m e _ => toLex (1, toLex (e, m))
  | .infinity .positive => toLex (2, toLex (0, 0))

section Comparisons

theorem compare_natCast (m n : Nat) : compare (m : Int) n = compare m n := by
  rw [← cmp_eq_compare, ← cmp_eq_compare]
  exact Nat.strictMono_cast.cmp_map_eq m n

theorem compare_neg (a b : Int) : compare (-a) (-b) = (compare a b).swap := by
  rw [← cmp_eq_compare, ← cmp_eq_compare, cmp_swap]
  exact strictMono_id.neg.cmp_map_eq a b

theorem compare_eq_compare_rank {x y : UnpackedFloat} (hx : x.isNaN = false) (hy : y.isNaN = false) :
    x.compare y = some (compare (rank x) (rank y)) := by
  rcases x with (_ | _) | _ | _ | ⟨_ | _, m, e, hm⟩ <;>
    rcases y with (_ | _) | _ | _ | ⟨_ | _, m', e', hm'⟩
  case finite.negative.finite.negative =>
    change some ((compare e e').then (compare m m')).swap =
      some ((compare (-e) (-e')).then (compare (-(m : Int)) (-(m' : Int))))
    rw [compare_neg, compare_neg, compare_natCast, Ordering.swap_then]
  case finite.positive.finite.positive =>
    change some ((compare e e').then (compare m m')) =
      some ((compare e e').then (compare (m : Int) (m' : Int)))
    rw [compare_natCast]
  all_goals first | rfl | exact Bool.noConfusion hx | exact Bool.noConfusion hy

end Comparisons

/-! ## Doubles -/

def place (x : Float) : Int ×ₗ Int ×ₗ Int :=
  rank x.toModel.unpack

section Doubles

variable {x y : Float} {lo hi : Int}

theorem le_iff_place_le (hx : x.isNaN = false) (hy : y.isNaN = false) : x ≤ y ↔ place x ≤ place y := by
  have hle : x ≤ y ↔ (x.toModel.unpack.compare y.toModel.unpack).any (·.isLE) = true :=
    decide_eq_true_iff
  rw [hle, compare_eq_compare_rank hx hy]
  exact Ordering.isLE_iff_ne_gt.trans compare_le_iff_le

theorem lt_iff_place_lt (hx : x.isNaN = false) (hy : y.isNaN = false) : x < y ↔ place x < place y := by
  have hlt : x < y ↔ (x.toModel.unpack.compare y.toModel.unpack == some .lt) = true :=
    decide_eq_true_iff
  rw [hlt, compare_eq_compare_rank hx hy, beq_iff_eq, Option.some_inj]
  exact compare_lt_iff_lt

theorem IsZero.isNaN (h : IsZero x) : x.isNaN = false :=
  congrArg UnpackedFloat.isNaN h

theorem Between.isNaN (h : Between lo hi x) : x.isNaN = false := by
  obtain ⟨m, e, hpos, heq, -⟩ := h.exists_finite
  exact congrArg UnpackedFloat.isNaN heq

theorem IsZero.place_eq (h : IsZero x) : place x = place 0 :=
  congrArg rank h

theorem Between.place_zero_lt (h : Between lo hi x) : place 0 < place x := by
  obtain ⟨m, e, hpos, heq, -⟩ := h.exists_finite
  rw [isZero_zero.place_eq, place, place, heq]
  exact Prod.Lex.toLex_lt_toLex.mpr (.inl Int.one_pos)

theorem Between.pos (h : Between lo hi x) : 0 < x :=
  (lt_iff_place_lt isZero_zero.isNaN h.isNaN).mpr h.place_zero_lt

theorem IsZero.not_pos (h : IsZero x) : ¬ 0 < x := by
  rw [lt_iff_place_lt isZero_zero.isNaN h.isNaN, h.place_eq]
  exact lt_irrefl _

theorem Between.nonneg (h : Between lo hi x) : 0 ≤ x :=
  (le_iff_place_le isZero_zero.isNaN h.isNaN).mpr h.place_zero_lt.le

theorem IsZero.nonneg (h : IsZero x) : 0 ≤ x :=
  (le_iff_place_le isZero_zero.isNaN h.isNaN).mpr h.place_eq.ge

end Doubles

end Hashwork.Binary64
