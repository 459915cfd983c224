import Hashwork.Lanes.Engine
import Hashwork.Proofs.Lanes.Lawful
import Hashwork.Proofs.Sha256.Schedule

/-!
# One lane of the engine follows the rounds on words

The invariant of a working state with its window says, for one lane, that the registers hold what the
rounds on single words give, and that every schedule word among the last sixteen is in the place of its
number modulo sixteen.  Each of the three kinds of step keeps it, so any fold of steps does.
-/

namespace Hashwork.Lanes

open Sha256 (Block State schedule roundsTo scheduleStep roundConstants)

variable {V : Type} {width : Nat} [Lanes V width]

/-- After `n` rounds on `block`, lane `i` is where the rounds on words are.  Up to round 16 the window
holds the block; from then on it ends with word `n - 1` of the schedule. -/
structure Follows (i : Fin width) (block : Block) (s : State) (n : Nat) (p : Progress V) : Prop where
  rounds_le : n ≤ 64
  state_eq : p.state.map (lane i) = roundsTo (schedule block) s n
  window_eq (k : Nat) (hk : k < 64) : k < max n 16 → max n 16 ≤ k + 16 →
    lane i p.window[k % 16] = (schedule block)[k]

theorem map_lane_toVector (i : Fin width) (r : Registers V) :
    (r.map (lane i)).toVector = r.toVector.map (lane i) := by
  simp [Registers.map, Registers.toVector]

variable [LawfulLanes V] {i : Fin width} {block : Block} {s : State} {n : Nat} {p : Progress V}

theorem map_lane_round (s : Registers V) (k : Word) (w : V) :
    (round s k w).map (lane i) = Sha256.round (s.map (lane i)) k (lane i w) := by
  simp only [round, Sha256.round, Registers.map, LawfulLanes.lane_add, LawfulLanes.lane_splat,
    LawfulLanes.lane_choose, LawfulLanes.lane_majority, LawfulLanes.lane_bigSigma0,
    LawfulLanes.lane_bigSigma1, UInt32.add_assoc]

theorem map_lane_splat (s : State) : (s.map (splat : Word → V)).map (lane i) = s := by
  simp [Registers.map]

/-- The engine adds up the four terms of the recurrence in another order. -/
theorem lane_expand (window : Vector V 16) (k : Nat) (hk : k % 16 < 16) :
    lane i (expand window (k + 16)) =
      scheduleStep (lane i window[(k + 14) % 16]) (lane i window[(k + 9) % 16])
        (lane i window[(k + 1) % 16]) (lane i window[k % 16]) := by
  simp only [expand, LawfulLanes.lane_add, LawfulLanes.lane_smallSigma0,
    LawfulLanes.lane_smallSigma1, scheduleStep]
  have h₁ : k + 16 - 16 = k := by omega
  have h₂ : k + 16 - 15 = k + 1 := by omega
  have h₃ : k + 16 - 7 = k + 9 := by omega
  have h₄ : k + 16 - 2 = k + 14 := by omega
  simp only [h₁, h₂, h₃, h₄]
  ac_rfl

theorem Follows.stepGiven (h : Follows i block s n p) (hn : n < 16) :
    Follows i block s (n + 1) (stepGiven n hn p) where
  rounds_le := by omega
  state_eq := by
    have hword : lane i p.window[n] = (schedule block)[n] := by
      have hw := h.window_eq n (by omega) (by omega) (by omega)
      simpa only [Nat.mod_eq_of_lt hn] using hw
    rw [Sha256.roundsTo_succ _ _ _ (by omega), ← h.state_eq, ← hword]
    exact map_lane_round ..
  window_eq k hk hlt hle := h.window_eq k hk (by omega) (by omega)

/-- A round with the right next word, which takes the place of the oldest one. -/
theorem Follows.append (h : Follows i block s n p) (hn : n < 64) (hge : 16 ≤ n) {word : V}
    (hword : lane i word = (schedule block)[n]) (hplace : n % 16 < 16) :
    Follows i block s (n + 1)
      ⟨round p.state roundConstants[n] word, p.window.set (n % 16) word hplace⟩ where
  rounds_le := hn
  state_eq := by
    rw [Sha256.roundsTo_succ _ _ _ hn, ← h.state_eq, ← hword]
    exact map_lane_round ..
  window_eq k hk hlt hle := by
    by_cases heq : k = n
    · subst heq
      simpa using hword
    · rw [Vector.getElem_set_ne _ _ (by omega)]
      exact h.window_eq k hk (by omega) (by omega)

/-- The window holds the four words that the next one is made of. -/
theorem Follows.lane_expand_eq (h : Follows i block s n p) (hn : n < 64) (hge : 16 ≤ n) :
    lane i (expand p.window n) = (schedule block)[n] := by
  obtain ⟨k, rfl⟩ : ∃ k, n = k + 16 := ⟨n - 16, by omega⟩
  have h₁₆ := h.window_eq k (by omega) (by omega) (by omega)
  have h₁₅ := h.window_eq (k + 1) (by omega) (by omega) (by omega)
  have h₇ := h.window_eq (k + 9) (by omega) (by omega) (by omega)
  have h₂ := h.window_eq (k + 14) (by omega) (by omega) (by omega)
  rw [lane_expand _ k (by omega), Sha256.schedule_getElem_add block k hn, h₂, h₇, h₁₅, h₁₆]

theorem Follows.stepExpanded (h : Follows i block s n p) (hn : n < 64) (hge : 16 ≤ n) :
    Follows i block s (n + 1) (stepExpanded n hn p) :=
  h.append hn hge (h.lane_expand_eq hn hge) (Nat.mod_lt n (by decide))

theorem Follows.stepPrepared (h : Follows i block s n p) (hn : n < 64) (hge : 16 ≤ n) {word : Word}
    (hword : word = (schedule block)[n]) :
    Follows i block s (n + 1) (stepPrepared n hn word p) :=
  h.append hn hge (by rw [LawfulLanes.lane_splat, hword]) (Nat.mod_lt n (by decide))

end Hashwork.Lanes
