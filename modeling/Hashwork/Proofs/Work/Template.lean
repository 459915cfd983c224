import Hashwork.Proofs.Header
import Hashwork.Proofs.Sha256.Midstate
import Hashwork.Proofs.Work.Prepared

/-!
# What mining does not change

Trying nonces writes to the nonce in the header, to the recorded hash and to the next nonce of a work
item.  The rest, its template, says which hash every nonce has and whether it is accepted.  An item is
consistent if its midstate and padding are those of its header; then the engines, which start from them,
hash the header.
-/

namespace Hashwork.WorkItem

variable {item other : WorkItem}

/-- The item with everything blank that is written to while nonces are tried. -/
def template (item : WorkItem) : WorkItem :=
  { item with
    header := item.header.withNonce 0
    hash := Vector.replicate 32 0
    nextNonce := 0 }

@[simp]
theorem template_tried (nonce : Word) : (item.tried nonce).template = item.template := by
  simp [template, tried]

@[simp]
theorem template_record (nonce : Word) (hash : Digest) :
    (item.record nonce hash).template = item.template := by
  simp [template, record]

@[simp]
theorem template_withNextNonce (nonce : Nat) :
    (item.withNextNonce nonce).template = item.template := rfl

theorem pow_eq_of_template (h : item.template = other.template) : item.pow = other.pow :=
  congrArg (·.pow) h

theorem cancel_eq_of_template (h : item.template = other.template) : item.cancel = other.cancel :=
  congrArg (·.cancel) h

theorem target_eq_of_template (h : item.template = other.template) : item.target = other.target :=
  congrArg (·.target) h

theorem powHash_template (nonce : Word) : item.template.powHash nonce = item.powHash nonce := by
  simp [powHash, template]

theorem powHash_eq_of_template (h : item.template = other.template) : item.powHash = other.powHash := by
  funext nonce
  rw [← powHash_template, h, powHash_template]

theorem checkShare_eq_of_template (h : item.template = other.template) :
    item.checkShare = other.checkShare := by
  funext share
  rw [checkShare, checkShare, powHash_eq_of_template h, target_eq_of_template h]

@[simp]
theorem record_record (nonce later : Word) (hash hash' : Digest) :
    (item.record nonce hash).record later hash' = item.record later hash' := by
  simp [record]

/-! ## Consistency -/

structure Consistent (item : WorkItem) : Prop where
  midstate_eq : item.midstate = item.header.midstate
  pad_eq : item.pad = Sha256.digestPad

theorem consistent_template : item.template.Consistent ↔ item.Consistent := by
  constructor
  · rintro ⟨hmidstate, hpad⟩
    exact ⟨hmidstate.trans (item.header.midstate_withNonce 0), hpad⟩
  · rintro ⟨hmidstate, hpad⟩
    exact ⟨hmidstate.trans (item.header.midstate_withNonce 0).symm, hpad⟩

theorem consistent_iff_of_template (h : item.template = other.template) :
    item.Consistent ↔ other.Consistent := by
  rw [← consistent_template, h, consistent_template]

theorem consistent_ofHeader (header : Header) (target : Target) (cancel : CancelFlag) :
    (ofHeader header target cancel).Consistent :=
  ⟨rfl, rfl⟩

/-- Parts that do not belong together make no item. -/
theorem consistent_of_ofParts {header : Header} {midstate : Sha256.State} {target : Target}
    {cancel : CancelFlag} (h : ofParts header midstate target cancel = .ok item) :
    item.Consistent := by
  unfold ofParts at h
  split at h
  · cases h
    exact consistent_ofHeader header target cancel
  · cases h

/-- The engines work from the midstate, and hash the header nevertheless. -/
theorem powHash_of_consistent (h : item.Consistent) (hpow : item.pow = .sha256d) (nonce : Word) :
    item.powHash nonce = ((Prepared.ofItem item).finalState nonce).toBytes := by
  calc
    item.powHash nonce = Sha256.doubleDigest (item.header.withNonce nonce).bytes.toArray := by
      simp only [powHash, hpow]
    _ = (Sha256.doubleHash item.header.midstate item.header.tail Sha256.digestPad nonce).toBytes :=
      Sha256.doubleDigest_withNonce item.header nonce
    _ = ((Prepared.ofItem item).finalState nonce).toBytes := by
      rw [← h.midstate_eq, ← h.pad_eq]
      rfl

end Hashwork.WorkItem
