import Hashwork.Proofs.Scan.Call

/-!
# Reachable items

An item starts from a header, and no one writes to its fields but the operations on items, runs and scans.
Whatever these are given and whatever they are answered, the item stays consistent.  So the double hash
from the midstate is that of the header at every nonce.
-/

namespace Hashwork.WorkItem

/-- The items there are.  Runs and scans may use any kernel, in any surroundings. -/
inductive Reachable : WorkItem → Prop
  | ofHeader (header : Header) (target : Target) (cancel : CancelFlag) :
    Reachable (ofHeader header target cancel)
  | ofParts {header : Header} {midstate : Sha256.State} {target : Target} {cancel : CancelFlag}
    {item : WorkItem} (h : ofParts header midstate target cancel = .ok item) : Reachable item
  | withPow {item : WorkItem} (h : Reachable item) (pow : ProofOfWork) : Reachable (item.withPow pow)
  | withCancelFlag {item : WorkItem} (h : Reachable item) (cancel : CancelFlag) :
    Reachable (item.withCancelFlag cancel)
  | withNextNonce {item : WorkItem} (h : Reachable item) (nonce : Nat) :
    Reachable (item.withNextNonce nonce)
  | run {kernel : Kernel} {range : NonceRange} {item other : WorkItem} {run : Run range}
    {t : List (Routine.Exchange fun _ : Unit ↦ Bool)} (h : Reachable item)
    (htrace : Routine.Trace (kernel.run item range) t (other, run)) : Reachable other
  | scan {scanner : Scanner} {ceiling : Nat} {item other : WorkItem} {report : Scan.Report}
    {t : Scan.Transcript} (h : Reachable item)
    (htrace : Routine.Trace (scanner.scan item ceiling) t (other, report)) : Reachable other

variable {item : WorkItem}

theorem Reachable.consistent (h : item.Reachable) : item.Consistent := by
  induction h with
  | ofHeader header target cancel => exact consistent_ofHeader header target cancel
  | ofParts h => exact consistent_of_ofParts h
  | withPow _ pow ih => exact ⟨ih.midstate_eq, ih.pad_eq⟩
  | withCancelFlag _ cancel ih => exact ⟨ih.midstate_eq, ih.pad_eq⟩
  | withNextNonce _ nonce ih => exact ⟨ih.midstate_eq, ih.pad_eq⟩
  | run _ htrace ih => exact (consistent_iff_of_template (Kernel.template_run htrace)).mpr ih
  | scan _ htrace ih => exact (consistent_iff_of_template (Scanner.template_scan htrace)).mpr ih

/-- The double hash that starts from the midstate is the one of the whole header, whatever nonce the header
itself carries. -/
theorem doubleHash_eq_doubleDigest :
    (∀ (header : Header) (nonce : Word),
      (Sha256.doubleHash header.midstate header.tail Sha256.digestPad nonce).toBytes =
        Sha256.doubleDigest (header.withNonce nonce).bytes.toArray) ∧
      ∀ item : WorkItem, item.Reachable → item.pow = .sha256d →
        ∀ nonce, item.referenceHash nonce = item.powHash nonce := by
  constructor
  · intro header nonce
    exact (Sha256.doubleDigest_withNonce header nonce).symm
  · intro item h hpow nonce
    exact (item.powHash_of_consistent h.consistent hpow nonce).symm

theorem referenceHash_ofHeader_zeros :
    (ofHeader ⟨Vector.replicate 80 0⟩ Target.max ⟨0⟩).referenceHash 7 =
      (ofHeader ⟨Vector.replicate 80 0⟩ Target.max ⟨0⟩).powHash 7 :=
  doubleHash_eq_doubleDigest.2 _ (.ofHeader _ _ _) rfl 7

end Hashwork.WorkItem
