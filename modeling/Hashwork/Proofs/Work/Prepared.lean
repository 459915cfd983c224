import Hashwork.Proofs.Sha256.Schedule
import Hashwork.Work.Prepared

/-!
# What is prepared is right for every nonce

None of it depends on the word that holds the nonce: not the first three rounds, and not the schedule words
16 and 17.
-/

namespace Hashwork

namespace Prepared

/-- The final state of the double hash at `nonce`, without anything else that was prepared. -/
def finalState (prepared : Prepared) (nonce : Word) : Sha256.State :=
  Sha256.doubleHash prepared.midstate prepared.tail prepared.pad nonce

open Sha256 (schedule scheduleTo roundsTo withNonceWord)

variable (item : WorkItem) (nonce : Word)

/-- The first three rounds use no schedule word that the nonce has a part in. -/
theorem state₃_ofItem :
    (ofItem item).state₃ =
      roundsTo (schedule (withNonceWord item.header.tail nonce)) item.midstate 3 := by
  apply Sha256.fold_round_eq_roundsTo (scheduleTo item.header.tail 2) _ _ 3 (by omega)
  intro k hk
  rw [Sha256.schedule_withNonceWord_getElem _ _ k (by omega) (by omega)]
  exact Sha256.scheduleTo_getElem_of_le _ (Nat.zero_le 2) k (by omega)

/-- A word of the prepared schedule that is made of words without the nonce. -/
theorem scheduleTo_tail_getElem (k : Nat) (hk : k + 16 < 2 + 16) :
    (scheduleTo item.header.tail 2)[k + 16] =
      (schedule (withNonceWord item.header.tail nonce))[k + 16] := by
  have hprepared (j : Nat) (hj : j < 16) :
      (scheduleTo item.header.tail 2)[j] = item.header.tail[j] :=
    Sha256.scheduleTo_getElem_of_le _ (Nat.zero_le 2) j hj
  have hword (j : Nat) (hj : j < 16) (hne : j ≠ 3) :=
    Sha256.schedule_withNonceWord_getElem item.header.tail nonce j hj hne (by omega)
  calc
    (scheduleTo item.header.tail 2)[k + 16] =
        Sha256.scheduleStep item.header.tail[k + 14] item.header.tail[k + 9]
          item.header.tail[k + 1] item.header.tail[k] := by
      rw [Sha256.scheduleTo_getElem_add _ k hk, hprepared (k + 14) (by omega),
        hprepared (k + 9) (by omega), hprepared (k + 1) (by omega), hprepared k (by omega)]
    _ = (schedule (withNonceWord item.header.tail nonce))[k + 16] := by
      rw [Sha256.schedule_getElem_add _ k (by omega), hword (k + 14) (by omega) (by omega),
        hword (k + 9) (by omega) (by omega), hword (k + 1) (by omega) (by omega),
        hword k (by omega) (by omega)]

theorem word₁₆_ofItem (h : 16 < 64) :
    (ofItem item).word₁₆ = (schedule (withNonceWord item.header.tail nonce))[16] :=
  scheduleTo_tail_getElem item nonce 0 (by omega)

theorem word₁₇_ofItem (h : 17 < 64) :
    (ofItem item).word₁₇ = (schedule (withNonceWord item.header.tail nonce))[17] :=
  scheduleTo_tail_getElem item nonce 1 (by omega)

end Prepared

end Hashwork
