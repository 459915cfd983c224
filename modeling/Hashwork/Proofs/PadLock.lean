import Hashwork.Algorithm.Detection

/-!
# Which processors have the PadLock engine

The engine is found on the processors of its two makers, if their own leaves go far enough and both bits of the
engine are ones.  On these processors, and on no others, its kernel is available.
-/

namespace Hashwork

theorem PadLock.and_presentAndEnabled_iff (x : Word) :
    x &&& presentAndEnabled = presentAndEnabled ↔
      x.toBitVec.getLsbD 10 = true ∧ x.toBitVec.getLsbD 11 = true := by
  have hmask : ∀ i < 32, presentAndEnabled.toBitVec.getLsbD i = (i == 10 || i == 11) := by decide
  constructor
  · intro h
    have hbit (i : Nat) (hi : presentAndEnabled.toBitVec.getLsbD i = true) :
        x.toBitVec.getLsbD i = true := by
      rw [← h, UInt32.toBitVec_and, BitVec.getLsbD_and, Bool.and_eq_true] at hi
      exact hi.1
    exact ⟨hbit 10 (by decide), hbit 11 (by decide)⟩
  · rintro ⟨hten, heleven⟩
    apply UInt32.toBitVec_inj.mp
    apply BitVec.eq_of_getLsbD_eq
    intro i hi
    rw [UInt32.toBitVec_and, BitVec.getLsbD_and, hmask i hi]
    grind

theorem PadLock.isUsable_iff (identify : Word → Leaf) :
    isUsable identify = true ↔
      ((identify 0).maker = .centaur ∨ (identify 0).maker = .zhaoxin) ∧
        engineLeaf ≤ (identify firstLeaf).eax ∧
        (identify engineLeaf).edx.toBitVec.getLsbD 10 = true ∧
        (identify engineLeaf).edx.toBitVec.getLsbD 11 = true := by
  rw [← and_presentAndEnabled_iff, ← UInt32.not_lt]
  by_cases hmaker : (identify 0).maker = .centaur ∨ (identify 0).maker = .zhaoxin
  · by_cases hlt : (identify firstLeaf).eax < engineLeaf
    · simp [isUsable, hlt]
    · simp [isUsable, hmaker, hlt]
  · simp [isUsable, not_or.mp hmaker]

/-- On a processor of the x86-64 family there is a kernel if the engine can be used. -/
theorem Algorithm.kernel?_via_ofLeaves (reported : Feature → Bool) (identify : Word → PadLock.Leaf)
    (threads : Nat) :
    kernel? (.ofLeaves reported identify threads) via =
      if PadLock.isUsable identify then some (.sha256d .padLock) else none := by
  simp [kernel?, requires, Processor.ofLeaves, implementation]

end Hashwork
