import Hashwork.Proofs.Loop
import Hashwork.Sha256.DoubleHash

/-!
# Laws of the message schedule and of the rounds

The schedule begins with the block, and every later word is made of four earlier ones.  The rounds only
append: what register `e` holds after a round is in register `h` three rounds later.
-/

namespace Hashwork.Sha256

/-- Going on with the schedule changes no word that is there. -/
theorem scheduleTo_getElem_of_le (block : Block) {m n : Nat} (h : m ≤ n) (k : Nat)
    (hk : k < m + 16) : (scheduleTo block n)[k] = (scheduleTo block m)[k] := by
  induction n with
  | zero =>
    obtain rfl : m = 0 := by omega
    rfl
  | succ n ih =>
    by_cases heq : m = n + 1
    · subst heq
      rfl
    · have hle : m ≤ n := by omega
      rw [← ih hle]
      simp only [scheduleTo, Vector.getElem_cast]
      rw [Vector.getElem_push_lt (by omega)]

/-- The recurrence that every word after the block satisfies, however far the schedule goes. -/
theorem scheduleTo_getElem_add (block : Block) {n : Nat} (k : Nat) (hk : k + 16 < n + 16) :
    (scheduleTo block n)[k + 16] =
      scheduleStep (scheduleTo block n)[k + 14] (scheduleTo block n)[k + 9]
        (scheduleTo block n)[k + 1] (scheduleTo block n)[k] := by
  have hlast : (scheduleTo block (k + 1))[k + 16] =
      scheduleStep (scheduleTo block k)[k + 14] (scheduleTo block k)[k + 9]
        (scheduleTo block k)[k + 1] (scheduleTo block k)[k] := by
    simp only [scheduleTo, Vector.getElem_cast]
    rw [Vector.getElem_push_eq]
  have hearlier (j : Nat) (hj : j < k + 16) :
      (scheduleTo block n)[j] = (scheduleTo block k)[j] :=
    scheduleTo_getElem_of_le block (by omega) j hj
  calc
    (scheduleTo block n)[k + 16] = (scheduleTo block (k + 1))[k + 16] :=
      scheduleTo_getElem_of_le block (by omega) (k + 16) (by omega)
    _ = scheduleStep (scheduleTo block k)[k + 14] (scheduleTo block k)[k + 9]
        (scheduleTo block k)[k + 1] (scheduleTo block k)[k] := hlast
    _ = _ := by
      rw [hearlier (k + 14) (by omega), hearlier (k + 9) (by omega), hearlier (k + 1) (by omega),
        hearlier k (by omega)]

theorem schedule_getElem_add (block : Block) (k : Nat) (hk : k + 16 < 64) :
    (schedule block)[k + 16] =
      scheduleStep (schedule block)[k + 14] (schedule block)[k + 9] (schedule block)[k + 1]
        (schedule block)[k] :=
  scheduleTo_getElem_add block k hk

@[simp]
theorem schedule_getElem_of_lt (block : Block) (k : Nat) (hk : k < 16) (h : k < 64) :
    (schedule block)[k] = block[k] :=
  scheduleTo_getElem_of_le block (Nat.zero_le 48) k hk

theorem roundsTo_succ (words : Vector Word 64) (s : State) (n : Nat) (h : n < 64) :
    roundsTo words s (n + 1) = round (roundsTo words s n) roundConstants[n] words[n] :=
  Nat.fold_succ ..

/-- The last three rounds only hand register `e` on to register `h`. -/
theorem roundsTo_add_three_h (words : Vector Word 64) (s : State) (n : Nat) (h : n + 3 ≤ 64) :
    (roundsTo words s (n + 3)).h = (roundsTo words s n).e := by
  calc
    (roundsTo words s (n + 3)).h = (roundsTo words s (n + 2)).g := by
      rw [roundsTo_succ words s (n + 2) (by omega)]
      rfl
    _ = (roundsTo words s (n + 1)).f := by
      rw [roundsTo_succ words s (n + 1) (by omega)]
      rfl
    _ = (roundsTo words s n).e := by
      rw [roundsTo_succ words s n (by omega)]
      rfl

/-- Rounds over the same first words end alike, however many words there are. -/
theorem fold_round_eq_roundsTo {m : Nat} (start : Vector Word m) (words : Vector Word 64) (s : State)
    (n : Nat) (hm : n ≤ m) (h : n ≤ 64) (heq : ∀ k (hk : k < n), start[k] = words[k]) :
    n.fold (fun k _ s ↦ round s roundConstants[k] start[k]) s = roundsTo words s n := by
  have hprefix := fold_invariant (n := n) (a := s)
    (f := fun k _ s ↦ round s roundConstants[k] start[k])
    (P := fun k x ↦ ∀ hk : k ≤ n, x = roundsTo words s k) (fun _ ↦ rfl)
    (by
      intro k hk x hx hle
      rw [hx (by omega), heq k hk, roundsTo_succ words s k (by omega)])
  exact hprefix (Nat.le_refl n)

theorem withNonceWord_getElem (tail : Block) (nonce : Word) (k : Nat) (hk : k < 16) :
    (withNonceWord tail nonce)[k] = if k = 3 then nonce.reverseBytes else tail[k] := by
  simp only [withNonceWord, noncePlace, Vector.getElem_set]
  grind

/-- The words of the tail other than the one for the nonce are in the schedule of every nonce. -/
theorem schedule_withNonceWord_getElem (tail : Block) (nonce : Word) (k : Nat) (hk : k < 16)
    (hne : k ≠ 3) (h : k < 64) : (schedule (withNonceWord tail nonce))[k] = tail[k] := by
  rw [schedule_getElem_of_lt _ k hk h, withNonceWord_getElem _ _ k hk, if_neg hne]

end Hashwork.Sha256
