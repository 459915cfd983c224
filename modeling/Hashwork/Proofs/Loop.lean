/-!
# Counted loops

A property of the number of steps done and of the value reached holds at the end of a counted loop if it
holds at its start and every step keeps it.
-/

namespace Hashwork

theorem fold_invariant {α : Type} {n : Nat} {f : (i : Nat) → i < n → α → α} {a : α}
    (P : Nat → α → Prop) (hstart : P 0 a)
    (hstep : ∀ i (hi : i < n) x, P i x → P (i + 1) (f i hi x)) : P n (n.fold f a) := by
  induction n with
  | zero => exact hstart
  | succ n ih =>
    rw [Nat.fold_succ]
    apply hstep n (Nat.lt_succ_self n)
    apply ih
    intro i hi x hx
    exact hstep i (Nat.lt_succ_of_lt hi) x hx

end Hashwork
