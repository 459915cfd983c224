import Hashwork.Proofs.Kernel.Exact
import Hashwork.Proofs.Scrypt.Scratch
import Hashwork.Proofs.Work.Accepted
import Mathlib.Data.List.FinRange

/-!
# One batch

Of a batch, a kernel comes up with the first accepted nonce, recorded with its hash; if there is none, it has
recorded the last candidate.  That the last words of all final states are looked at first makes no
difference: a nonce that is passed over for its last word is not accepted.
-/

namespace Hashwork.Kernel

variable {item : WorkItem} {base : Word}

/-- What looking at these lanes comes to: the first accepted one is recorded, or else the last candidate. -/
inductive Sifted (item : WorkItem) (base : Word) (past : Digest) {count : Nat}
    (lanes : List (Fin count)) : WorkItem → Option (Fin count) → Prop
  | accepted {other : WorkItem} (lane : Fin count)
    (haccepted : item.accepts (base + lane.val.toUInt32) = true)
    (hearlier : ∀ earlier ∈ lanes, earlier < lane →
      item.accepts (base + earlier.val.toUInt32) = false)
    (hother : other =
      item.record (base + lane.val.toUInt32) (item.powHash (base + lane.val.toUInt32))) :
    Sifted item base past lanes other (some lane)
  | rejected {other : WorkItem}
    (hrejected : ∀ lane ∈ lanes, item.accepts (base + lane.val.toUInt32) = false)
    (hrecorded : item.Recorded
      (item.lastCandidate past (lanes.map fun lane ↦ base + lane.val.toUInt32)) other) :
    Sifted item base past lanes other none

/-- Of lanes in order the first is accepted. -/
theorem Sifted.head {past : Digest} {count : Nat} {lane : Fin count} {rest : List (Fin count)}
    {other : WorkItem} (hfirst : ∀ later ∈ rest, lane < later)
    (haccepted : item.accepts (base + lane.val.toUInt32) = true)
    (hother : other =
      item.record (base + lane.val.toUInt32) (item.powHash (base + lane.val.toUInt32))) :
    Sifted item base past (lane :: rest) other (some lane) := by
  apply Sifted.accepted lane haccepted _ hother
  intro earlier hmem hlt
  rcases List.mem_cons.mp hmem with rfl | hmem
  · exact absurd hlt (Fin.lt_irrefl _)
  · exact absurd (hfirst earlier hmem) (Fin.lt_asymm hlt)

/-- A lane that is not accepted is followed by the others, with its hash recorded if it is a candidate. -/
theorem Sifted.cons {past : Digest} {count : Nat} {lane : Fin count} {rest : List (Fin count)}
    {other : WorkItem} {found : Option (Fin count)}
    (hrejected : item.accepts (base + lane.val.toUInt32) = false)
    (h : Sifted item base (item.lastCandidate past [base + lane.val.toUInt32]) rest other found) :
    Sifted item base past (lane :: rest) other found := by
  cases h with
  | accepted found haccepted hearlier hother =>
    apply Sifted.accepted found haccepted _ hother
    intro earlier hmem hlt
    rcases List.mem_cons.mp hmem with rfl | hmem
    · exact hrejected
    · exact hearlier earlier hmem hlt
  | rejected hrest hrecorded =>
    exact .rejected (List.forall_mem_cons.mpr ⟨hrejected, hrest⟩) hrecorded

/-- A function that tries batches is right for an item if this is what it does with a batch, whatever has
been recorded before and whatever its scratch space holds. -/
def TriesBatches {S : Type} (lanes : Nat)
    (hash : (base : Word) → (count : Nat) → count ≤ lanes → S × WorkItem →
      (S × WorkItem) × Option (Fin count)) (item : WorkItem) : Prop :=
  ∀ (base : Word) (count : Nat) (h : count ≤ lanes) (s : S × WorkItem) (past : Digest), 0 < count →
    item.Recorded past s.2 →
      Sifted item base past (List.finRange count) (hash base count h s).1.2 (hash base count h s).2

namespace TriesBatches

variable {S : Type} {lanes : Nat}
  {hash : (base : Word) → (count : Nat) → count ≤ lanes → S × WorkItem →
    (S × WorkItem) × Option (Fin count)}
  {count : Nat} {h : count ≤ lanes} {s s' : S × WorkItem} {past : Digest}

theorem accepted (htries : TriesBatches lanes hash item) (hcount : 0 < count)
    (hrecorded : item.Recorded past s.2) {lane : Fin count}
    (heq : hash base count h s = (s', some lane)) :
    item.accepts (base + lane.val.toUInt32) = true ∧
      (∀ n, base.toNat ≤ n → n < base.toNat + lane.val → item.accepts n.toUInt32 = false) ∧
        s'.2 = item.record (base + lane.val.toUInt32) (item.powHash (base + lane.val.toUInt32)) := by
  have hsifted := htries base count h s past hcount hrecorded
  rw [heq] at hsifted
  cases hsifted with | accepted lane haccepted hearlier hother =>
  refine ⟨haccepted, ?_, hother⟩
  intro n hle hlt
  obtain ⟨k, rfl⟩ := Nat.exists_eq_add_of_le hle
  have hk : k < lane.val := Nat.lt_of_add_lt_add_left hlt
  rw [Word.toUInt32_toNat_add]
  exact hearlier ⟨k, Nat.lt_trans hk lane.isLt⟩ (List.mem_finRange _) hk

theorem rejected (htries : TriesBatches lanes hash item) (hcount : 0 < count)
    (hrecorded : item.Recorded past s.2) (heq : hash base count h s = (s', none)) :
    (∀ n, base.toNat ≤ n → n < base.toNat + count → item.accepts n.toUInt32 = false) ∧
      item.Recorded
        (item.lastCandidate past (noncesBetween base.toNat (base.toNat + count))) s'.2 := by
  have hsifted := htries base count h s past hcount hrecorded
  rw [heq] at hsifted
  cases hsifted with | rejected hrejected hitem =>
  constructor
  · intro n hle hlt
    obtain ⟨k, rfl⟩ := Nat.exists_eq_add_of_le hle
    rw [Word.toUInt32_toNat_add]
    exact hrejected ⟨k, Nat.lt_of_add_lt_add_left hlt⟩ (List.mem_finRange _)
  · rw [noncesBetween_add, ← List.map_coe_finRange_eq_range, List.map_map]
    exact hitem

end TriesBatches

section Sha256d

variable {hasher : Hasher}

/-- Every lane is hashed as the header is at its nonce. -/
theorem toBytes_digest (hexact : hasher.Exact) (hconsistent : item.Consistent)
    (hpow : item.pow = .sha256d) {lane : Nat} (hlane : lane < hasher.lanes) :
    (hasher.digest (.ofItem item) base lane).toBytes = item.powHash (base + lane.toUInt32) := by
  rw [hexact.digest_eq hconsistent base lane hlane, item.powHash_of_consistent hconsistent hpow]

/-- The test on the last word picks the candidates. -/
theorem mayBeAccepted_eq_candidate (hconsistent : item.Consistent) (hpow : item.pow = .sha256d)
    (nonce : Word) :
    Sha256.mayBeAccepted ((Prepared.ofItem item).finalState nonce).h item.target.topWord =
      item.candidate nonce := by
  simp only [WorkItem.candidate, hpow]
  rw [item.powHash_of_consistent hconsistent hpow, Target.mayBeAccepted_eq]

theorem sifted_sift (hexact : hasher.Exact) (hconsistent : item.Consistent)
    (hpow : item.pow = .sha256d) {count : Nat} (h : count ≤ hasher.lanes)
    {words : Vector Word hasher.lanes}
    (hwords : ∀ k (hk : k < hasher.lanes),
      words[k] = ((Prepared.ofItem item).finalState (base + k.toUInt32)).h)
    {lanes : List (Fin count)} (hordered : lanes.Pairwise (· < ·)) {other : WorkItem}
    {past : Digest} (hrecorded : item.Recorded past other) :
    Sifted item base past lanes (sift hasher (.ofItem item) base h words lanes other).1
      (sift hasher (.ofItem item) base h words lanes other).2 := by
  induction lanes generalizing other past with
  | nil => exact .rejected (fun _ hmem ↦ absurd hmem List.not_mem_nil) hrecorded
  | cons lane rest ih =>
    obtain ⟨hfirst, hrest⟩ := List.pairwise_cons.mp hordered
    have htarget : other.target = item.target := WorkItem.target_eq_of_template hrecorded.template_eq
    have hlane : lane.val < hasher.lanes := Nat.lt_of_lt_of_le lane.isLt h
    have hcandidate : Sha256.mayBeAccepted words[lane] other.target.topWord =
        item.candidate (base + lane.val.toUInt32) := by
      calc
        Sha256.mayBeAccepted words[lane] other.target.topWord =
            Sha256.mayBeAccepted words[lane] item.target.topWord := by rw [htarget]
        _ = Sha256.mayBeAccepted
            ((Prepared.ofItem item).finalState (base + lane.val.toUInt32)).h item.target.topWord :=
          congrArg (Sha256.mayBeAccepted · _) (hwords lane.val hlane)
        _ = item.candidate (base + lane.val.toUInt32) :=
          mayBeAccepted_eq_candidate hconsistent hpow _
    have haccepts (nonce : Word) (hash : Digest) :
        (other.record nonce hash).target.accepts hash = item.target.accepts hash :=
      congrArg (·.accepts hash) htarget
    simp only [sift, hcandidate, toBytes_digest hexact hconsistent hpow hlane, haccepts]
    split
    · rename_i hcandidate
      split
      · rename_i haccepted
        exact .head hfirst haccepted (hrecorded.record_eq _ _)
      · rename_i hrejected
        apply Sifted.cons (Bool.eq_false_iff.mpr hrejected)
        apply ih hrest
        rw [WorkItem.lastCandidate_singleton, if_pos hcandidate]
        exact hrecorded.record _ _
    · rename_i hcandidate
      have hrejected : item.accepts (base + lane.val.toUInt32) = false :=
        Bool.eq_false_iff.mpr (mt WorkItem.candidate_of_accepts hcandidate)
      apply Sifted.cons hrejected
      apply ih hrest
      rw [WorkItem.lastCandidate_singleton, if_neg hcandidate]
      exact hrecorded

theorem triesBatches_hashBatch (hexact : hasher.Exact) (hconsistent : item.Consistent)
    (hpow : item.pow = .sha256d) :
    TriesBatches hasher.lanes (hashBatch hasher (.ofItem item)) item := by
  intro base count h s past _ hrecorded
  exact sifted_sift hexact hconsistent hpow h (fun k hk ↦ hexact.fill_getElem hconsistent base s.1 k hk)
    (List.pairwise_lt_finRange count) hrecorded

end Sha256d

/-- A batch of the scrypt kernel is one nonce. -/
theorem triesBatches_scryptBatch (hpow : item.pow = .scrypt) : TriesBatches 1 scryptBatch item := by
  intro base count h s past hcount hrecorded
  obtain rfl : count = 1 := Nat.le_antisymm h hcount
  have htarget : s.2.target = item.target := WorkItem.target_eq_of_template hrecorded.template_eq
  have hbase (lane : Fin 1) : base + lane.val.toUInt32 = base := by
    rw [Subsingleton.elim lane 0]
    exact UInt32.add_zero base
  have hpow' : s.2.pow = .scrypt := (WorkItem.pow_eq_of_template hrecorded.template_eq).trans hpow
  have hhash : (Scrypt.hashWith s.1 (s.2.header.withNonce base).bytes).1 = item.powHash base := by
    calc
      (Scrypt.hashWith s.1 (s.2.header.withNonce base).bytes).1 =
          Scrypt.hash (s.2.header.withNonce base).bytes := Scrypt.hashWith_fst _ _
      _ = s.2.powHash base := by simp only [WorkItem.powHash, hpow']
      _ = item.powHash base := by rw [WorkItem.powHash_eq_of_template hrecorded.template_eq]
  have hcandidate : item.candidate base = true := by simp only [WorkItem.candidate, hpow]
  have haccepts : (s.2.record base (item.powHash base)).target.accepts (item.powHash base) =
      item.accepts base := by
    rw [WorkItem.accepts, ← htarget]
    rfl
  have hlanes : List.finRange 1 = [0] := by decide
  rw [hlanes, scryptBatch]
  generalize Scrypt.hashWith s.1 (s.2.header.withNonce base).bytes = hashed at hhash ⊢
  obtain ⟨hash, table⟩ := hashed
  obtain rfl : hash = item.powHash base := hhash
  dsimp only
  by_cases haccepted : item.accepts base = true
  · rw [dif_pos ⟨hcount, haccepts.trans haccepted⟩]
    apply Sifted.head (fun later hmem ↦ absurd hmem List.not_mem_nil)
    · rw [hbase]
      exact haccepted
    · rw [hbase]
      exact hrecorded.record_eq _ _
  · rw [dif_neg fun h ↦ haccepted (haccepts.symm.trans h.2)]
    apply Sifted.cons
    · rw [hbase]
      exact Bool.eq_false_iff.mpr haccepted
    · apply Sifted.rejected (fun lane hmem ↦ absurd hmem List.not_mem_nil)
      rw [hbase, WorkItem.lastCandidate_singleton, if_pos hcandidate]
      exact hrecorded.record _ _

end Hashwork.Kernel
