import Hashwork.Proofs.Target
import Hashwork.Proofs.Work.Template

/-!
# Accepted nonces

The shares that a range of nonces holds are a list that no kernel has a part in.  Of the hashes of a range a
kernel records those that may be accepted by their top word; the one recorded last stays with the item.
-/

namespace Hashwork

/-- The nonces from `first` on and below `finish`, in order. -/
def noncesBetween (first finish : Nat) : List Word :=
  (List.range' first (finish - first)).map Nat.toUInt32

theorem noncesBetween_self (n : Nat) : noncesBetween n n = [] := by
  simp [noncesBetween]

theorem noncesBetween_append {first mid finish : Nat} (h : first ≤ mid) (h' : mid ≤ finish) :
    noncesBetween first mid ++ noncesBetween mid finish = noncesBetween first finish := by
  obtain ⟨m, rfl⟩ := Nat.exists_eq_add_of_le h
  obtain ⟨n, rfl⟩ := Nat.exists_eq_add_of_le h'
  unfold noncesBetween
  rw [← List.map_append, Nat.add_sub_cancel_left, Nat.add_sub_cancel_left, List.range'_append_1,
    Nat.add_assoc first m n, Nat.add_sub_cancel_left]

theorem noncesBetween_succ {first last : Nat} (h : first ≤ last) :
    noncesBetween first (last + 1) = noncesBetween first last ++ [last.toUInt32] := by
  rw [← noncesBetween_append h (Nat.le_succ last)]
  simp [noncesBetween]

theorem mem_noncesBetween {first finish : Nat} {nonce : Word} :
    nonce ∈ noncesBetween first finish ↔ ∃ n, first ≤ n ∧ n < finish ∧ n.toUInt32 = nonce := by
  simp only [noncesBetween, List.mem_map, List.mem_range'_1]
  constructor
  · rintro ⟨n, ⟨hle, hlt⟩, rfl⟩
    exact ⟨n, hle, by omega, rfl⟩
  · rintro ⟨n, hle, hlt, rfl⟩
    exact ⟨n, ⟨hle, by omega⟩, rfl⟩

/-- The nonces of a batch. -/
theorem noncesBetween_add (base : Word) (count : Nat) :
    noncesBetween base.toNat (base.toNat + count) =
      (List.range count).map fun k ↦ base + k.toUInt32 := by
  unfold noncesBetween
  rw [Nat.add_sub_cancel_left, List.range'_eq_map_range, List.map_map]
  apply List.map_congr_left
  intro k _
  exact Word.toUInt32_toNat_add base k

theorem noncesBetween_pairwise {first finish : Nat} (h : finish ≤ UInt32.size) :
    (noncesBetween first finish).Pairwise (· < ·) := by
  unfold noncesBetween
  rw [List.pairwise_map]
  apply List.Pairwise.imp_of_mem _ (List.pairwise_lt_range' 1)
  intro m n hm hn hlt
  rw [List.mem_range'_1] at hm hn
  rw [UInt32.lt_iff_toNat_lt, Nat.toUInt32_eq, Nat.toUInt32_eq,
    UInt32.toNat_ofNat_of_lt' (by omega), UInt32.toNat_ofNat_of_lt' (by omega)]
  exact hlt

namespace WorkItem

variable {item other : WorkItem} {first mid finish : Nat}

def accepts (item : WorkItem) (nonce : Word) : Bool :=
  item.target.accepts (item.powHash nonce)

/-- Whether a kernel records the hash of this nonce.  Every scrypt hash counts as a candidate. -/
def candidate (item : WorkItem) (nonce : Word) : Bool :=
  match item.pow with
  | .sha256d => Target.topWord ⟨item.powHash nonce⟩ ≤ item.target.topWord
  | .scrypt => true

def shareAt (item : WorkItem) (nonce : Word) : Share :=
  ⟨nonce, item.powHash nonce⟩

/-- The shares among the nonces from `first` on and below `finish`, in order. -/
def acceptedShares (item : WorkItem) (first finish : Nat) : List Share :=
  ((noncesBetween first finish).filter item.accepts).map item.shareAt

theorem accepts_eq_of_template (h : item.template = other.template) :
    item.accepts = other.accepts := by
  funext nonce
  rw [accepts, accepts, target_eq_of_template h, powHash_eq_of_template h]

theorem candidate_eq_of_template (h : item.template = other.template) :
    item.candidate = other.candidate := by
  funext nonce
  rw [candidate, candidate, pow_eq_of_template h, target_eq_of_template h, powHash_eq_of_template h]

theorem acceptedShares_eq_of_template (h : item.template = other.template) :
    item.acceptedShares = other.acceptedShares := by
  have hshare : item.shareAt = other.shareAt := by
    funext nonce
    rw [shareAt, shareAt, powHash_eq_of_template h]
  funext first finish
  rw [acceptedShares, acceptedShares, accepts_eq_of_template h, hshare]

/-- A hash that is accepted is a candidate. -/
theorem candidate_of_accepts {nonce : Word} (h : item.accepts nonce = true) :
    item.candidate nonce = true := by
  unfold candidate
  split
  · exact decide_eq_true (Target.topWord_le_of_accepts h)
  · rfl

theorem checkShare_shareAt (nonce : Word) :
    item.checkShare (item.shareAt nonce) = item.accepts nonce := by
  simp [checkShare, shareAt, accepts]

@[simp]
theorem acceptedShares_self (item : WorkItem) (n : Nat) : item.acceptedShares n n = [] := by
  simp [acceptedShares, noncesBetween_self]

theorem acceptedShares_append (item : WorkItem) (h : first ≤ mid) (h' : mid ≤ finish) :
    item.acceptedShares first mid ++ item.acceptedShares mid finish =
      item.acceptedShares first finish := by
  simp only [acceptedShares, ← noncesBetween_append h h', List.filter_append, List.map_append]

theorem acceptedShares_eq_nil
    (h : ∀ n, first ≤ n → n < finish → item.accepts n.toUInt32 = false) :
    item.acceptedShares first finish = [] := by
  unfold acceptedShares
  rw [List.map_eq_nil_iff, List.filter_eq_nil_iff]
  intro nonce hmem
  obtain ⟨n, hle, hlt, rfl⟩ := mem_noncesBetween.mp hmem
  rw [h n hle hlt]
  exact Bool.false_ne_true

/-- The first accepted nonce of a range gives its first share. -/
theorem acceptedShares_succ {last : Word} (hle : first ≤ last.toNat)
    (hrejected : ∀ n, first ≤ n → n < last.toNat → item.accepts n.toUInt32 = false)
    (haccepted : item.accepts last = true) :
    item.acceptedShares first (last.toNat + 1) = [item.shareAt last] := by
  have hlast : noncesBetween last.toNat (last.toNat + 1) = [last] := by simp [noncesBetween]
  calc
    item.acceptedShares first (last.toNat + 1) =
        item.acceptedShares first last.toNat ++ item.acceptedShares last.toNat (last.toNat + 1) :=
      (acceptedShares_append item hle (Nat.le_succ _)).symm
    _ = item.acceptedShares last.toNat (last.toNat + 1) := by
      rw [acceptedShares_eq_nil hrejected, List.nil_append]
    _ = [item.shareAt last] := by simp [acceptedShares, hlast, haccepted]

theorem mem_acceptedShares {share : Share} :
    share ∈ item.acceptedShares first finish ↔
      ∃ n, first ≤ n ∧ n < finish ∧ item.accepts n.toUInt32 = true ∧
        share = item.shareAt n.toUInt32 := by
  simp only [acceptedShares, List.mem_map, List.mem_filter, mem_noncesBetween]
  constructor
  · rintro ⟨nonce, ⟨⟨n, hle, hlt, rfl⟩, haccepted⟩, rfl⟩
    exact ⟨n, hle, hlt, haccepted, rfl⟩
  · rintro ⟨n, hle, hlt, haccepted, rfl⟩
    exact ⟨n.toUInt32, ⟨⟨n, hle, hlt, rfl⟩, haccepted⟩, rfl⟩

/-- The shares come in the order of their nonces, and none comes twice. -/
theorem acceptedShares_pairwise (h : finish ≤ UInt32.size) :
    (item.acceptedShares first finish).Pairwise fun earlier later ↦ earlier.nonce < later.nonce := by
  unfold acceptedShares
  rw [List.pairwise_map]
  exact (noncesBetween_pairwise h).filter _

/-! ## The recorded hash -/

/-- The hash recorded last after these nonces have been tried, if `hash` was recorded before. -/
def lastCandidate (item : WorkItem) (hash : Digest) (nonces : List Word) : Digest :=
  nonces.foldl (fun hash nonce ↦ if item.candidate nonce then item.powHash nonce else hash) hash

theorem lastCandidate_singleton (item : WorkItem) (hash : Digest) (nonce : Word) :
    item.lastCandidate hash [nonce] = if item.candidate nonce then item.powHash nonce else hash :=
  rfl

/-- An accepted nonce is a candidate, so its hash is the one recorded last. -/
theorem lastCandidate_of_accepts {hash : Digest} {last : Word} (hle : first ≤ last.toNat)
    (haccepted : item.accepts last = true) :
    item.lastCandidate hash (noncesBetween first (last.toNat + 1)) = item.powHash last := by
  have hnonces : noncesBetween first (last.toNat + 1) = noncesBetween first last.toNat ++ [last] := by
    rw [noncesBetween_succ hle, Nat.toUInt32_eq, UInt32.ofNat_toNat]
  unfold lastCandidate
  rw [hnonces, List.foldl_append, List.foldl_cons, List.foldl_nil,
    if_pos (candidate_of_accepts haccepted)]

theorem lastCandidate_append (item : WorkItem) (hash : Digest) (h : first ≤ mid) (h' : mid ≤ finish) :
    item.lastCandidate (item.lastCandidate hash (noncesBetween first mid)) (noncesBetween mid finish) =
      item.lastCandidate hash (noncesBetween first finish) := by
  rw [← noncesBetween_append h h']
  simp only [lastCandidate, List.foldl_append]

/-- After a range the recorded hash is that of its last candidate, if it has any. -/
theorem lastCandidate_cases (item : WorkItem) (hash : Digest) (h : first ≤ finish) :
    (∃ n, first ≤ n ∧ n < finish ∧ item.candidate n.toUInt32 = true ∧
      (∀ later, n < later → later < finish → item.candidate later.toUInt32 = false) ∧
        item.lastCandidate hash (noncesBetween first finish) = item.powHash n.toUInt32) ∨
      (∀ n, first ≤ n → n < finish → item.candidate n.toUInt32 = false) ∧
        item.lastCandidate hash (noncesBetween first finish) = hash := by
  induction finish, h using Nat.le_induction with
  | base =>
    refine .inr ⟨fun n hle hlt ↦ absurd hlt (Nat.not_lt.mpr hle), ?_⟩
    rw [noncesBetween_self]
    rfl
  | succ finish hle ih =>
    have hlast : item.lastCandidate hash (noncesBetween first (finish + 1)) =
        if item.candidate finish.toUInt32 then item.powHash finish.toUInt32
        else item.lastCandidate hash (noncesBetween first finish) := by
      rw [noncesBetween_succ hle, lastCandidate, List.foldl_append]
      rfl
    by_cases hcandidate : item.candidate finish.toUInt32 = true
    · refine .inl ⟨finish, hle, Nat.lt_succ_self finish, hcandidate, ?_, ?_⟩
      · intro later hlater hlt
        exact absurd hlater (Nat.not_lt.mpr (Nat.le_of_lt_succ hlt))
      · rw [hlast, if_pos hcandidate]
    · have hsucc {later : Nat} (hlt : later < finish + 1)
          (hbefore : later < finish → item.candidate later.toUInt32 = false) :
          item.candidate later.toUInt32 = false := by
        rcases Nat.lt_succ_iff_lt_or_eq.mp hlt with hlt | rfl
        · exact hbefore hlt
        · exact Bool.eq_false_iff.mpr hcandidate
      rw [hlast, if_neg hcandidate]
      rcases ih with ⟨n, hn, hlt, hpasses, hlater, heq⟩ | ⟨hnone, heq⟩
      · exact .inl ⟨n, hn, Nat.lt_succ_of_lt hlt, hpasses,
          fun later h hlt ↦ hsucc hlt (hlater later h), heq⟩
      · exact .inr ⟨fun n hn hlt ↦ hsucc hlt (hnone n hn), heq⟩

theorem lastCandidate_eq_of_template (h : item.template = other.template) :
    item.lastCandidate = other.lastCandidate := by
  funext hash nonces
  simp only [lastCandidate, candidate_eq_of_template h, powHash_eq_of_template h]

/-- Of an item, trying nonces has changed the nonce in the header and the recorded hash, which is now
`hash`. -/
def Recorded (item : WorkItem) (hash : Digest) (other : WorkItem) : Prop :=
  ∀ nonce, other.tried nonce = item.record nonce hash

theorem Recorded.refl (item : WorkItem) : item.Recorded item.hash item :=
  fun _ ↦ rfl

theorem Recorded.tried {hash : Digest} (h : item.Recorded hash other) (nonce : Word) :
    item.Recorded hash (other.tried nonce) := by
  intro later
  rw [← h later]
  simp [WorkItem.tried]

theorem Recorded.record_eq {hash : Digest} (h : item.Recorded hash other) (nonce : Word)
    (later : Digest) : other.record nonce later = item.record nonce later :=
  congrArg (fun x : WorkItem ↦ { x with hash := later }) (h nonce)

theorem Recorded.record {hash : Digest} (h : item.Recorded hash other) (nonce : Word)
    (later : Digest) : item.Recorded later (other.record nonce later) := by
  intro n
  rw [h.record_eq]
  simp [WorkItem.tried, WorkItem.record]

theorem Recorded.template_eq {hash : Digest} (h : item.Recorded hash other) :
    other.template = item.template := by
  calc
    other.template = (other.tried 0).template := (template_tried 0).symm
    _ = (item.record 0 hash).template := congrArg template (h 0)
    _ = item.template := template_record 0 hash

end WorkItem

end Hashwork
