import Hashwork.Proofs.Work.Prepared
import Hashwork.ShaExtension.Compression

/-!
# The instructions for SHA-256 compress as the rounds do

After `j` steps the two registers hold the state after `4 * j` rounds, split and reordered, and the ring
holds the last four groups of four schedule words, group `q` in place `q % 4`.  Two rounds make the old
`abef` the new `cdgh`, which is why the registers change roles halfway through a step and are back at its
end.
-/

namespace Hashwork.ShaExtension

open Sha256 (Block State schedule roundsTo roundConstants scheduleStep)

def abefOf (s : State) : Register := ⟨s.f, s.e, s.b, s.a⟩

def cdghOf (s : State) : Register := ⟨s.h, s.g, s.d, s.c⟩

/-- Group `q` of four words. -/
def group (words : Vector Word 64) (q : Nat) (h : 4 * q + 4 ≤ 64) : Register :=
  ⟨words[4 * q], words[4 * q + 1], words[4 * q + 2], words[4 * q + 3]⟩

theorem loadState_eq (s : State) : loadState s = (abefOf s, cdghOf s) :=
  rfl

theorem storeState_add (r s : State) :
    storeState (add (abefOf r) (abefOf s)) (add (cdghOf r) (cdghOf s)) =
      s.zipWith (· + ·) r := by
  simp only [Registers.zipWith, UInt32.add_comm]
  rfl

/-- A round in the order in which the instruction adds up. -/
theorem round_eq (s : State) {k w x : Word} (h : x = w + k) :
    Sha256.round s k w =
      let t := Sha256.choose s.e s.f s.g + Sha256.bigSigma1 s.e + x + s.h
      ⟨t + Sha256.majority s.a s.b s.c + Sha256.bigSigma0 s.a, s.a, s.b, s.c, t + s.d, s.e, s.f,
        s.g⟩ := by
  have ht : s.h + Sha256.bigSigma1 s.e + Sha256.choose s.e s.f s.g + k + w =
      Sha256.choose s.e s.f s.g + Sha256.bigSigma1 s.e + x + s.h := by
    rw [h]
    ac_rfl
  simp only [Sha256.round, ht, Registers.mk.injEq, and_true, true_and]
  exact ⟨by ac_rfl, by ac_rfl⟩

/-- One instruction does two rounds, of which the state before them keeps half. -/
theorem twoRounds_eq (s : State) {k₀ w₀ k₁ w₁ : Word} {wk : Register} (h₀ : wk.word₀ = w₀ + k₀)
    (h₁ : wk.word₁ = w₁ + k₁) :
    twoRounds (cdghOf s) (abefOf s) wk = abefOf (Sha256.round (Sha256.round s k₀ w₀) k₁ w₁) ∧
      abefOf s = cdghOf (Sha256.round (Sha256.round s k₀ w₀) k₁ w₁) := by
  rw [round_eq s h₀, round_eq _ h₁]
  exact ⟨rfl, rfl⟩

/-- The instructions add up the four terms of the recurrence in another order. -/
theorem scheduleStep_eq (w₂ w₇ w₁₅ w₁₆ : Word) :
    scheduleStep w₂ w₇ w₁₅ w₁₆ =
      w₁₆ + Sha256.smallSigma0 w₁₅ + w₇ + Sha256.smallSigma1 w₂ := by
  unfold scheduleStep
  ac_rfl

/-- A group comes from the four before it.  The last two of its words depend on the first two. -/
theorem group_add_four (block : Block) (q : Nat) (hq : 4 * (q + 4) + 4 ≤ 64)
    {w₀ w₁ w₂ w₃ : Register} (h₀ : w₀ = group (schedule block) q (by omega))
    (h₁ : w₁ = group (schedule block) (q + 1) (by omega))
    (h₂ : w₂ = group (schedule block) (q + 2) (by omega))
    (h₃ : w₃ = group (schedule block) (q + 3) (by omega)) :
    scheduleSecond (add (scheduleFirst w₀ w₁) (alignRight w₃ w₂ 1)) w₃ =
      group (schedule block) (q + 4) hq := by
  have e₀ := Sha256.schedule_getElem_add block (4 * q) (by omega)
  have e₁ := Sha256.schedule_getElem_add block (4 * q + 1) (by omega)
  have e₂ := Sha256.schedule_getElem_add block (4 * q + 2) (by omega)
  have e₃ := Sha256.schedule_getElem_add block (4 * q + 3) (by omega)
  subst h₀ h₁ h₂ h₃
  -- The recurrence is all that is used of the schedule; unification should not look into it.
  generalize schedule block = words at e₀ e₁ e₂ e₃ ⊢
  simp only [scheduleStep_eq, Nat.add_assoc, Nat.reduceAdd] at e₀ e₁ e₂ e₃
  simp only [scheduleSecond, scheduleFirst, alignRight, add, Register.word, group, Nat.mul_add,
    Nat.reduceMul, Nat.add_assoc, Nat.reduceAdd, Nat.reduceLT, if_true, if_false, Nat.reduceSub]
  rw [← e₀, ← e₁, ← e₂, ← e₃]

/-- After `j` steps on `block`: the state, and the last four groups of the schedule. -/
structure Follows (block : Block) (s : State) (j : Nat) (p : Progress) : Prop where
  steps_le : j ≤ 16
  abef_eq : p.abef = abefOf (roundsTo (schedule block) s (4 * j))
  cdgh_eq : p.cdgh = cdghOf (roundsTo (schedule block) s (4 * j))
  ring_eq (q : Nat) (hq : 4 * q + 4 ≤ 64) : q < max j 4 → max j 4 ≤ q + 4 →
    p.ring[q % 4] = group (schedule block) q hq

variable {block : Block} {s : State} {j : Nat} {p : Progress}

/-- Two rounds by one instruction, from an even number of rounds on. -/
theorem two_rounds (words : Vector Word 64) (s : State) (n : Nat) (hn : n + 1 < 64) {wk : Register}
    (h₀ : wk.word₀ = words[n] + roundConstants[n])
    (h₁ : wk.word₁ = words[n + 1] + roundConstants[n + 1]) :
    twoRounds (cdghOf (roundsTo words s n)) (abefOf (roundsTo words s n)) wk =
        abefOf (roundsTo words s (n + 2)) ∧
      abefOf (roundsTo words s n) = cdghOf (roundsTo words s (n + 2)) := by
  rw [Sha256.roundsTo_succ words s (n + 1) hn, Sha256.roundsTo_succ words s n (by omega)]
  exact twoRounds_eq _ h₀ h₁

/-- The registers after a step, once its four words are in place. -/
theorem Follows.rounds (h : Follows block s j p) (hj : j < 16) :
    let wk := add (group (schedule block) j (by omega)) (constantsAt j hj)
    let cdgh := twoRounds p.cdgh p.abef wk
    twoRounds p.abef cdgh (shuffle wk 0x0e) = abefOf (roundsTo (schedule block) s (4 * (j + 1))) ∧
      cdgh = cdghOf (roundsTo (schedule block) s (4 * (j + 1))) := by
  intro wk cdgh
  obtain ⟨hfirst, hkept⟩ := two_rounds (schedule block) s (4 * j) (by omega)
    (show wk.word₀ = _ + _ from rfl) rfl
  obtain ⟨hsecond, hkept'⟩ := two_rounds (schedule block) s (4 * j + 2) (by omega)
    (show (shuffle wk 0x0e).word₀ = _ + _ from rfl) rfl
  have hcdgh : cdgh = abefOf (roundsTo (schedule block) s (4 * j + 2)) := by
    rw [← hfirst, ← h.abef_eq, ← h.cdgh_eq]
  rw [hcdgh, h.abef_eq, hkept]
  exact ⟨hsecond, hkept'⟩

/-- The ring with the words of the next step in it. -/
theorem Follows.nextWords_eq (h : Follows block s j p) (hj : j < 16) (hge : 4 ≤ j) :
    nextWords p.ring j =
      p.ring.set (j % 4) (group (schedule block) j (by omega)) (Nat.mod_lt j (by decide)) := by
  obtain ⟨q, rfl⟩ : ∃ q, j = q + 4 := ⟨j - 4, by omega⟩
  have h₀ := h.ring_eq q (by omega) (by omega) (by omega)
  have h₁ := h.ring_eq (q + 1) (by omega) (by omega) (by omega)
  have h₂ := h.ring_eq (q + 2) (by omega) (by omega) (by omega)
  have h₃ := h.ring_eq (q + 3) (by omega) (by omega) (by omega)
  have e₀ : (q + 4) % 4 = q % 4 := by omega
  have e₁ : (q + 4 + 1) % 4 = (q + 1) % 4 := by omega
  have e₂ : (q + 4 + 2) % 4 = (q + 2) % 4 := by omega
  have e₃ : (q + 4 + 3) % 4 = (q + 3) % 4 := by omega
  rw [← group_add_four block q (by omega) h₀ h₁ h₂ h₃]
  simp only [nextWords, e₀, e₁, e₂, e₃]

theorem Follows.step (h : Follows block s j p) (hj : j < 16) :
    Follows block s (j + 1) (step j hj p) := by
  have hmod : j % 4 < 4 := Nat.mod_lt j (by decide)
  -- Up to step four the ring holds the block; from then on the step replaces its oldest group.
  have hring (ring : Vector Register 4) (hr : ring = if 4 ≤ j then nextWords p.ring j else p.ring) :
      ring[j % 4] = group (schedule block) j (by omega) ∧
        ∀ q (hq : 4 * q + 4 ≤ 64), q < max (j + 1) 4 → max (j + 1) 4 ≤ q + 4 →
          ring[q % 4] = group (schedule block) q hq := by
    by_cases hge : 4 ≤ j
    · rw [if_pos hge, h.nextWords_eq hj hge] at hr
      subst hr
      refine ⟨Vector.getElem_set_self hmod, ?_⟩
      intro q hq hlt hle
      by_cases heq : q = j
      · subst heq
        exact Vector.getElem_set_self hmod
      · rw [Vector.getElem_set_ne hmod (by omega) (by omega)]
        exact h.ring_eq q hq (by omega) (by omega)
    · rw [if_neg hge] at hr
      subst hr
      refine ⟨h.ring_eq j (by omega) (by omega) (by omega), ?_⟩
      intro q hq hlt hle
      exact h.ring_eq q hq (by omega) (by omega)
  obtain ⟨hword, hkept⟩ := hring _ rfl
  obtain ⟨habef, hcdgh⟩ := h.rounds hj
  rw [← hword] at habef hcdgh
  exact ⟨hj, habef, hcdgh, hkept⟩

theorem follows_start (block : Block) (s : State) :
    Follows block s 0 ⟨abefOf s, cdghOf s, loadBlock block⟩ where
  steps_le := by omega
  abef_eq := rfl
  cdgh_eq := rfl
  ring_eq q hq hlt hle := by
    have hq4 : q < 4 := by omega
    simp only [Nat.mod_eq_of_lt hq4, loadBlock, Vector.getElem_ofFn, group]
    rw [Sha256.schedule_getElem_of_lt _ (4 * q) (by omega) (by omega),
      Sha256.schedule_getElem_of_lt _ (4 * q + 1) (by omega) (by omega),
      Sha256.schedule_getElem_of_lt _ (4 * q + 2) (by omega) (by omega),
      Sha256.schedule_getElem_of_lt _ (4 * q + 3) (by omega) (by omega)]

/-- For every state and every block. -/
theorem compress_eq (s : State) (block : Block) : compress s block = Sha256.compress s block := by
  have hend := fold_invariant (n := 16) (P := Follows block s) (follows_start block s)
    fun j hj p hp ↦ hp.step hj
  calc
    compress s block =
        storeState (add (abefOf (roundsTo (schedule block) s 64)) (abefOf s))
          (add (cdghOf (roundsTo (schedule block) s 64)) (cdghOf s)) := by
      unfold compress
      rw [loadState_eq]
      simp only
      rw [hend.abef_eq, hend.cdgh_eq]
    _ = Sha256.compress s block := storeState_add _ s

theorem doubleHash_eq (prepared : Prepared) (nonce : Word) :
    doubleHash prepared nonce = prepared.finalState nonce := by
  unfold doubleHash
  rw [compress_eq, compress_eq]
  rfl

end Hashwork.ShaExtension
