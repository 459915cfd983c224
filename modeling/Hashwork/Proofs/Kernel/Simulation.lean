import Hashwork.Kernel.Run
import Hashwork.Proofs.Routine.Trace
import Mathlib.Data.Nat.Init

/-!
# Two kernels in step

A run depends on what its batches make of the item and on what they say.  What they keep for themselves from
one batch to the next may differ.
-/

namespace Hashwork.Kernel

variable {S S' : Type} {lanes : Nat}
  {hash : (base : Word) → (count : Nat) → count ≤ lanes → S × WorkItem →
    (S × WorkItem) × Option (Fin count)}
  {hash' : (base : Word) → (count : Nat) → count ≤ lanes → S' × WorkItem →
    (S' × WorkItem) × Option (Fin count)}
  {range : NonceRange} {base : Word}

/-- Batches that stay related, and whose items correspond under `f`, make corresponding runs. -/
theorem runBatches_map (f : WorkItem → WorkItem) (Related : S → S' → Prop)
    (htried : ∀ item nonce, (f item).tried nonce = f (item.tried nonce))
    (hhash : ∀ base count h s s' item, Related s s' →
      Related (hash base count h (s, item)).1.1 (hash' base count h (s', f item)).1.1 ∧
        (hash' base count h (s', f item)).1.2 = f (hash base count h (s, item)).1.2 ∧
          (hash' base count h (s', f item)).2 = (hash base count h (s, item)).2)
    (first_le : range.first ≤ base) (le_last : base ≤ range.last) (s : S) (s' : S')
    (hrelated : Related s s') (item : WorkItem) :
    runBatches lanes hash' range base first_le le_last (s', f item) =
      (runBatches lanes hash range base first_le le_last (s, item)).bind
        fun result ↦ .done (f result.1, result.2) := by
  induction hleft : range.last.toNat - base.toNat using Nat.strong_induction_on
    generalizing base s s' item with
  | h left ih =>
    have hbatch := hhash base _ (Nat.min_le_right (range.last.toNat - base.toNat + 1) lanes) s s'
      item hrelated
    rw [runBatches, runBatches]
    simp only
    generalize hash' base _ _ (s', f item) = batch' at hbatch ⊢
    generalize hash base _ _ (s, item) = batch at hbatch ⊢
    obtain ⟨⟨s, item⟩, _⟩ := batch
    obtain ⟨⟨s', _⟩, accepted⟩ := batch'
    dsimp only at hbatch
    obtain ⟨hrelated, rfl, rfl⟩ := hbatch
    cases accepted with
    | some lane => rfl
    | none =>
      have hinside : min (range.last.toNat - base.toNat + 1) lanes - 1 ≤
          range.last.toNat - base.toNat := by omega
      simp only [htried]
      split
      · rfl
      · rename_i hlast
        have hbelow := UInt32.lt_of_le_of_ne (Word.add_le_of_le_sub hinside le_last) hlast
        have hdecreases := Word.sub_add_one_lt (Word.le_add_of_le_sub hinside le_last) hbelow
        simp only [Routine.bind]
        apply congrArg
        funext cancelled
        split
        · rfl
        · exact ih _ (hleft ▸ hdecreases) _ _ _ _ hrelated _ rfl

/-- Batches that come to the same make the same runs, whatever they hold. -/
theorem runBatches_congr
    (hhash : ∀ base count h s s' item,
      (hash' base count h (s', item)).1.2 = (hash base count h (s, item)).1.2 ∧
        (hash' base count h (s', item)).2 = (hash base count h (s, item)).2)
    (first_le : range.first ≤ base) (le_last : base ≤ range.last) (s : S) (s' : S')
    (item : WorkItem) :
    runBatches lanes hash' range base first_le le_last (s', item) =
      runBatches lanes hash range base first_le le_last (s, item) := by
  rw [← Routine.bind_done (runBatches lanes hash range base first_le le_last (s, item))]
  exact runBatches_map id (fun _ _ ↦ True) (fun _ _ ↦ rfl)
    (fun base count h s s' item _ ↦ ⟨trivial, hhash base count h s s' item⟩) first_le le_last s s'
    trivial item

end Hashwork.Kernel
