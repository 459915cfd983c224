/-!
# Schedules without an end

Who takes the next step is decided outside, for ever.  What has a rank that falls again and again comes to an
end.
-/

namespace Hashwork

theorem exists_of_descent {rank : Nat → Nat} {P : Nat → Prop}
    (hfalls : ∀ n, P n ∨ ∃ m, rank m < rank n) : ∃ n, P n := by
  suffices h : ∀ a n, rank n = a → ∃ n, P n from h (rank 0) 0 rfl
  intro a
  induction a using Nat.strongRecOn with
  | ind a ih =>
    rintro n rfl
    rcases hfalls n with hn | ⟨m, hm⟩
    · exact ⟨n, hn⟩
    · exact ih (rank m) hm m rfl

/-- If nothing but certain steps changes what is observed, it is unchanged when the next of them comes. -/
theorem exists_next {α : Type} {observed : Nat → α} {P : Nat → Prop}
    (hkept : ∀ n, ¬ P n → observed (n + 1) = observed n) (hcomes : ∀ n, ∃ m, n ≤ m ∧ P m) (n : Nat) :
    ∃ m, n ≤ m ∧ P m ∧ observed m = observed n := by
  obtain ⟨m, hle, hm⟩ := hcomes n
  obtain ⟨k, rfl⟩ := Nat.exists_eq_add_of_le hle
  clear hle
  induction k generalizing n with
  | zero => exact ⟨n, Nat.le_refl n, hm, rfl⟩
  | succ k ih =>
    by_cases hn : P n
    · exact ⟨n, Nat.le_refl n, hn, rfl⟩
    · have hshift : n + (k + 1) = n + 1 + k := by omega
      obtain ⟨m, hle, hm, hobserved⟩ := ih (n + 1) (hshift ▸ hm)
      exact ⟨m, Nat.le_of_succ_le hle, hm, hobserved.trans (hkept n hn)⟩

end Hashwork
