import Hashwork.Benchmark.Harness
import Hashwork.Proofs.Kernel.Exact
import Hashwork.Proofs.Routine.Trace
import Hashwork.Proofs.Target
import Hashwork.Proofs.Work.Operations
import Mathlib.Data.List.FinRange

/-!
# What the check of a kernel looks at

Each nonce is tried in a run of its own, so it is always in the first lane of its batch.  As every hash is
accepted, the last words of the final states cannot keep a nonce out, and the run ends with the first full
final state.  So the check goes by these states alone.  It passes a hasher that is wrong in every other lane,
or in every last word.
-/

namespace Hashwork

theorem Sha256.toBytes_injective {s s' : State} (h : s.toBytes = s'.toBytes) : s = s' := by
  have hvector : s.toVector = s'.toVector := by
    ext j hj : 1
    have hbyte (c : Fin 4) : s.toVector[j].bigEndianByte c = s'.toVector[j].bigEndianByte c := by
      rw [← toBytes_getElem s j hj c, ← toBytes_getElem s' j hj c]
      exact congrArg (fun bytes : Digest ↦ bytes[4 * j + c.val]) h
    rw [← Word.ofBigEndian_bigEndianByte s.toVector[j], hbyte, hbyte, hbyte, hbyte,
      Word.ofBigEndian_bigEndianByte]
  exact congrArg Registers.ofVector hvector

namespace Target

theorem accepts_max (hash : Digest) : max.accepts hash = true := by
  have hlt := Bytes.value_lt hash
  have hmax : max.bytes.value = 256 ^ 32 - 1 := by decide
  rw [accepts_iff, hmax]
  omega

theorem mayBeAccepted_max (word : Word) : Sha256.mayBeAccepted word max.topWord = true := by
  have htop : max.topWord = 0xffffffff := by decide
  rw [Sha256.mayBeAccepted, htop, decide_eq_true_iff, UInt32.le_iff_toNat_le]
  exact Nat.le_of_lt_succ word.reverseBytes.toNat_lt

end Target

namespace Kernel

variable {hasher : Hasher} {prepared : Prepared} {base : Word} {count : Nat} {item : WorkItem}

/-- Where every hash is accepted, a batch ends in its first lane, whatever the last words are. -/
theorem hashBatch_max (hcount : 0 < count) (h : count ≤ hasher.lanes)
    (htarget : item.target = .max) (words : Vector Word hasher.lanes) :
    hashBatch hasher prepared base count h (words, item) =
      ((hasher.fill prepared base words, item.record base (hasher.digest prepared base 0).toBytes),
        some ⟨0, hcount⟩) := by
  obtain ⟨count, rfl⟩ : ∃ n, count = n + 1 := ⟨count - 1, by omega⟩
  have hbase : base + ((0 : Fin (count + 1)).val).toUInt32 = base := UInt32.add_zero base
  have haccepts (hash : Digest) : (item.record base hash).target.accepts hash = true := by
    have hrecord : (item.record base hash).target = .max := htarget
    rw [hrecord, Target.accepts_max]
  simp only [hashBatch, List.finRange_succ, sift, htarget, Target.mayBeAccepted_max, if_true, hbase,
    haccepts]
  rfl

/-- A run over a single nonce. -/
theorem runSteady_max (hasher : Hasher) (cancelled : Bool) (htarget : item.target = .max)
    (nonce : Word) :
    ((sha256d hasher).runSteady cancelled item ⟨nonce, nonce, UInt32.le_refl _⟩).1 =
        item.record nonce (hasher.digest (.ofItem item) nonce 0).toBytes ∧
      ((sha256d hasher).runSteady cancelled item ⟨nonce, nonce, UInt32.le_refl _⟩).2.found =
        true := by
  have hcount : 0 < min (nonce.toNat - nonce.toNat + 1) hasher.lanes :=
    Nat.lt_min.mpr ⟨Nat.succ_pos _, hasher.lanes_range.1⟩
  rw [runSteady, run, runBatches]
  simp only [hashBatch_max hcount _ htarget]
  exact ⟨rfl, rfl⟩

end Kernel

namespace Benchmark

variable (hasher : Hasher)

/-- The final state of the first lane of the batch at `nonce`, with what is prepared while the header still
holds the nonce before. -/
def firstState (nonce : Nat) : Sha256.State :=
  hasher.digest (.ofItem (probe.tried (nonce - 1).toUInt32)) nonce.toUInt32 0

/-- The one that the reference comes to. -/
def referenceState (nonce : Nat) : Sha256.State :=
  (Prepared.ofItem probe).finalState nonce.toUInt32

theorem referenceHash_record (previous nonce : Word) (hash : Digest) :
    (probe.record previous hash).referenceHash nonce =
      ((Prepared.ofItem probe).finalState nonce).toBytes := by
  have hprobe : probe.Consistent := WorkItem.consistent_ofHeader header .max ⟨0⟩
  have htemplate : (probe.record previous hash).template = probe.template :=
    WorkItem.template_record previous hash
  calc
    (probe.record previous hash).referenceHash nonce = (probe.record previous hash).powHash nonce :=
      WorkItem.referenceHash_of_consistent
        ((WorkItem.consistent_iff_of_template htemplate).mpr hprobe) nonce
    _ = probe.powHash nonce := congrFun (WorkItem.powHash_eq_of_template htemplate) nonce
    _ = ((Prepared.ofItem probe).finalState nonce).toBytes :=
      WorkItem.powHash_of_consistent hprobe rfl nonce

/-- Nonces are checked in a row, each on the item that the run before has left. -/
theorem checkEach_iff (first count : Nat) (hash : Digest) :
    checkEach (.sha256d hasher) ((List.range' first count).map Nat.toUInt32)
        (probe.record (first - 1).toUInt32 hash) = true ↔
      ∀ nonce, first ≤ nonce → nonce < first + count →
        firstState hasher nonce = referenceState nonce := by
  induction count generalizing first hash with
  | zero =>
    simp only [List.range'_zero, List.map_nil, checkEach, true_iff]
    omega
  | succ count ih =>
    obtain ⟨hitem, hfound⟩ := Kernel.runSteady_max hasher false
      (rfl : (probe.record (first - 1).toUInt32 hash).target = .max) first.toUInt32
    have hcons : checkEach (.sha256d hasher) ((List.range' first (count + 1)).map Nat.toUInt32)
        (probe.record (first - 1).toUInt32 hash) = true ↔
        firstState hasher first = referenceState first ∧ ∀ nonce, first + 1 ≤ nonce →
          nonce < first + 1 + count → firstState hasher nonce = referenceState nonce := by
      have hright : firstState hasher first = referenceState first ↔
          (firstState hasher first).toBytes = (referenceState first).toBytes :=
        ⟨congrArg Sha256.State.toBytes, Sha256.toBytes_injective⟩
      rw [← ih (first + 1) (firstState hasher first).toBytes, hright]
      simp only [List.range'_succ, List.map_cons, checkEach, hitem, hfound, Bool.true_and,
        Bool.and_eq_true, beq_iff_eq, WorkItem.record_record, referenceHash_record]
      rfl
    rw [hcons]
    constructor
    · rintro ⟨hfirst, hrest⟩ nonce hle hlt
      rcases Nat.eq_or_lt_of_le hle with rfl | hlater
      · exact hfirst
      · exact hrest nonce hlater (by omega)
    · intro hall
      exact ⟨hall first (Nat.le_refl _) (by omega), fun nonce hle hlt ↦
        hall nonce (by omega) (by omega)⟩

theorem check_iff :
    check (.sha256d hasher) = true ↔
      ∀ nonce < 2 * hasher.lanes, firstState hasher nonce = referenceState nonce := by
  have hfresh : probe.record (0 - 1 : Nat).toUInt32 probe.hash = probe := by
    simp [probe, WorkItem.ofHeader, WorkItem.record, header]
  have hchecked := checkEach_iff hasher 0 (2 * hasher.lanes) probe.hash
  rw [hfresh, ← List.range_eq_range'] at hchecked
  have hcheck : check (.sha256d hasher) = checkEach (.sha256d hasher)
      ((List.range (2 * hasher.lanes)).map Nat.toUInt32) probe := rfl
  rw [hcheck, hchecked]
  simp

/-- A kernel that fails the check is not timed, and any other one is. -/
theorem isSome_of_trace {kernel : Kernel} {mode : BenchMode}
    {t : List (Routine.Exchange fun _ : Nat ↦ Instant)} {result : Option Sample}
    (htrace : Routine.Trace (measure kernel mode) t result) : result.isSome = check kernel := by
  rw [measure] at htrace
  split at htrace
  · rename_i hpasses
    obtain ⟨start, t', -, htrace⟩ := Routine.trace_ask_iff.mp htrace
    obtain ⟨stop, t'', -, htrace⟩ := Routine.trace_ask_iff.mp htrace
    rw [(Routine.trace_done_iff.mp htrace).2, hpasses]
    rfl
  · rename_i hfails
    rw [(Routine.trace_done_iff.mp htrace).2, Bool.eq_false_iff.mpr hfails]
    rfl

theorem exists_sample_iff {kernel : Kernel} {mode : BenchMode} :
    (∃ t sample, Routine.Trace (measure kernel mode) t (some sample)) ↔ check kernel = true := by
  constructor
  · rintro ⟨t, sample, htrace⟩
    exact (isSome_of_trace htrace).symm
  · intro hpasses
    obtain ⟨t, result, htrace⟩ := Routine.exists_trace (fun _ ↦ ⟨⟨0⟩⟩) (measure kernel mode)
    have hresult := isSome_of_trace htrace
    obtain ⟨sample, rfl⟩ := Option.isSome_iff_exists.mp (hresult.trans hpasses)
    exact ⟨t, sample, htrace⟩

theorem exists_none_iff {kernel : Kernel} {mode : BenchMode} :
    (∃ t, Routine.Trace (measure kernel mode) t none) ↔ ¬ check kernel = true := by
  constructor
  · rintro ⟨t, htrace⟩ hpasses
    exact absurd ((isSome_of_trace htrace).trans hpasses) Bool.false_ne_true
  · intro hfails
    rw [measure, if_neg hfails]
    exact ⟨[], .done none⟩

/-- There is a sample exactly if the first lane is right at each of the first nonces, as many as two batches.
Of the other lanes and of the last words nothing is required. -/
theorem sample_iff (mode : BenchMode) :
    ((∃ t sample, Routine.Trace (measure (.sha256d hasher) mode) t (some sample)) ↔
      ∀ nonce < 2 * hasher.lanes, firstState hasher nonce = referenceState nonce) ∧
    ((∃ t, Routine.Trace (measure (.sha256d hasher) mode) t none) ↔
      ∃ nonce < 2 * hasher.lanes, firstState hasher nonce ≠ referenceState nonce) ∧
    Harness.outcomeOf none = .error .mismatch := by
  refine ⟨exists_sample_iff.trans (check_iff hasher), ?_, rfl⟩
  rw [exists_none_iff, check_iff]
  push Not
  rfl

/-- A hasher passes if it finds the right final state for the first lane of every batch. -/
theorem firstState_eq {hasher : Hasher}
    (hdigest : ∀ item base, hasher.digest (.ofItem item) base 0 = (Prepared.ofItem item).finalState base)
    (nonce : Nat) : firstState hasher nonce = referenceState nonce := by
  apply Sha256.toBytes_injective
  rw [firstState, hdigest]
  exact referenceHash_record (nonce - 1).toUInt32 nonce.toUInt32 probe.hash

/-! ## A hasher that is wrong in its last lane -/

/-- Batches of five nonces on vectors of four: the last word is never written. -/
def fiveLanes : Hasher := .ofLanes (Packed 4) 5 (by decide)

theorem firstState_fiveLanes (nonce : Nat) : firstState fiveLanes nonce = referenceState nonce := by
  apply firstState_eq
  intro item base
  have hdigest := (Lanes.computesDoubleHash (Packed 4)).laneDigest_eq item base 0
  have hbase : base + (0 : Nat).toUInt32 = base := UInt32.add_zero base
  rw [hbase] at hdigest
  exact hdigest

theorem fill_fiveLanes (h : 4 < 5) :
    (Lanes.fillWord₇ (Packed 4) (.ofItem probe) 0 (Vector.replicate 5 0))[4] = 0 := by
  rw [(Lanes.computesDoubleHash (Packed 4)).fillWord₇_getElem probe 0 _ 4 h, if_neg (by decide),
    Vector.getElem_replicate]

theorem referenceState_four_ne : (referenceState (0 + 4)).h ≠ 0 := by
  decide +kernel

/-- The check does not cover every lane. -/
theorem exists_sample_fiveLanes :
    (∃ t sample, Routine.Trace (measure (.sha256d fiveLanes) .quick) t (some sample)) ∧
      ∀ h : 4 < fiveLanes.lanes,
        (fiveLanes.fill (.ofItem probe) 0 (Vector.replicate 5 0))[4] ≠ (referenceState (0 + 4)).h := by
  constructor
  · apply exists_sample_iff.mpr
    exact (check_iff fiveLanes).mpr fun nonce _ ↦ firstState_fiveLanes nonce
  · intro h heq
    exact referenceState_four_ne (heq.symm.trans (fill_fiveLanes h))

end Benchmark

end Hashwork
