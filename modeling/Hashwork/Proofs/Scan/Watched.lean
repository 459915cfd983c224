import Hashwork.Proofs.Routine.Watched
import Hashwork.Proofs.Scan.Overflow

/-!
# Watched scans

A watched scan is the same scan with a mark wherever something is hashed: when a kernel is called, before each
batch, when it is known which nonces of a batch are accepted, and when a share is checked once more.
-/

namespace Hashwork

namespace Scan

inductive Mark where
  /-- A kernel is called. -/
  | call
  /-- All lanes of the batch from this nonce on are hashed, those past the end of the range too. -/
  | batch (base : Word)
  /-- For so many nonces from this one on it is decided whether they are accepted. -/
  | decided (first : Word) (count : Nat)
  /-- One nonce is hashed once more. -/
  | recheck (nonce : Word)

abbrev Watching : Type → Type := Routine.Watched Mark Event.Answer

end Scan

open Scan (Watching)

namespace Kernel

section Batches

variable {S : Type} (lanes : Nat)
  (hash : (base : Word) → (count : Nat) → count ≤ lanes → S × WorkItem →
    (S × WorkItem) × Option (Fin count))

def watchedBatches (range : NonceRange) (base : Word) (first_le : range.first ≤ base)
    (le_last : base ≤ range.last) (s : S × WorkItem) : Watching (WorkItem × Run range) :=
  .mark (.batch base) <|
  let count := min (range.last.toNat - base.toNat + 1) lanes
  match hash base count (Nat.min_le_right ..) s with
  | ((_, item), some lane) =>
    have inside : lane.val ≤ range.last.toNat - base.toNat :=
      Nat.le_of_lt_succ (Nat.lt_of_lt_of_le lane.isLt (Nat.min_le_left ..))
    .mark (.decided base (lane.val + 1)) <|
    .done (item,
      { found := true
        last := base + lane.val.toUInt32
        first_le := UInt32.le_trans first_le (Word.le_add_of_le_sub inside le_last)
        le_last := Word.add_le_of_le_sub inside le_last })
  | ((scratch, item), none) =>
    have inside : count - 1 ≤ range.last.toNat - base.toNat :=
      Nat.sub_le_of_le_add (Nat.min_le_left ..)
    let last := base + (count - 1).toUInt32
    let item := item.tried last
    have base_le : base ≤ last := Word.le_add_of_le_sub inside le_last
    let run : Run range :=
      { found := false
        last := last
        first_le := UInt32.le_trans first_le base_le
        le_last := Word.add_le_of_le_sub inside le_last }
    .mark (.decided base count) <|
    if h : last = range.last then .done (item, run)
    else
      have below : last < range.last := UInt32.lt_of_le_of_ne run.le_last h
      .ask (.inl .readFlag) fun (cancelled : Bool) ↦
        if cancelled then .done (item, run)
        else
          watchedBatches range (last + 1) (Word.le_add_one run.first_le below) (Word.add_one_le below)
            (scratch, item)
termination_by range.last.toNat - base.toNat
decreasing_by exact Word.sub_add_one_lt base_le below

variable {lanes} {hash}

theorem erase_watchedBatches {range : NonceRange} {base : Word} (first_le : range.first ≤ base)
    (le_last : base ≤ range.last) (s : S × WorkItem) :
    (watchedBatches lanes hash range base first_le le_last s).erase =
      (runBatches lanes hash range base first_le le_last s).embed (fun _ ↦ .readFlag)
        fun _ raised ↦ raised := by
  induction hleft : range.last.toNat - base.toNat using Nat.strong_induction_on
    generalizing base s with
  | h left ih =>
    rw [watchedBatches, runBatches, Routine.erase_mark]
    simp only
    obtain ⟨⟨scratch, item⟩, _ | lane⟩ := hash base _ (Nat.min_le_right
      (range.last.toNat - base.toNat + 1) lanes) s
    · have hinside : min (range.last.toNat - base.toNat + 1) lanes - 1 ≤
          range.last.toNat - base.toNat := by omega
      rw [Routine.erase_mark]
      split
      · rfl
      · rename_i hlast
        have hbelow := UInt32.lt_of_le_of_ne (Word.add_le_of_le_sub hinside le_last) hlast
        have hdecreases := Word.sub_add_one_lt (Word.le_add_of_le_sub hinside le_last) hbelow
        apply congrArg (Routine.ask Scan.Event.readFlag)
        funext cancelled
        cases cancelled with
        | true => rfl
        | false => exact ih _ (hleft ▸ hdecreases) _ _ _ rfl
    · rfl

end Batches

/-- A run as part of a watched scan. -/
def watchedRun (kernel : Kernel) (item : WorkItem) (range : NonceRange) :
    Watching (WorkItem × Run range) :=
  match kernel with
  | sha256d hasher =>
    watchedBatches hasher.lanes (hashBatch hasher (.ofItem item)) range range.first
      range.first_le_first range.ordered (Vector.replicate hasher.lanes 0, item)
  | scrypt =>
    watchedBatches 1 scryptBatch range range.first range.first_le_first range.ordered (.empty, item)

theorem erase_watchedRun (kernel : Kernel) (item : WorkItem) (range : NonceRange) :
    (kernel.watchedRun item range).erase =
      (kernel.run item range).embed (fun _ ↦ .readFlag) fun _ raised ↦ raised := by
  cases kernel with
  | sha256d hasher => exact erase_watchedBatches _ _ _
  | scrypt =>
    simp only [watchedRun, run]
    generalize Scrypt.Table.empty = table
    exact erase_watchedBatches _ _ _

end Kernel

namespace Scanner

open Scan

def watchedSubmit (item : WorkItem) (share : Share) : Watching (Option Nat) :=
  .mark (.recheck share.nonce) (.unmarked (submit item share))

def watchedSearch (kernel : Kernel) (max : Word) (item : WorkItem) (shares : Nat) (foundAny : Bool)
    (nonce : Word) (h : nonce ≤ max) : Watching Stop :=
  .mark .call <|
  (kernel.watchedRun item ⟨nonce, max, h⟩).bind fun (item, run) ↦
    if run.found then
      (watchedSubmit item ⟨run.last, item.hash⟩).bind fun
        | none => .done ⟨item, run.last, .cancelled, shares, true⟩
        | some taken =>
          if hlast : run.last = max then
            .done ⟨item, run.last, .exhausted, shares + taken, true⟩
          else
            have below : run.last < max := UInt32.lt_of_le_of_ne run.le_last hlast
            .ask (.inl .readFlag) fun (raised : Bool) ↦
              if raised then .done ⟨item, run.last, .cancelled, shares + taken, true⟩
              else
                watchedSearch kernel max item (shares + taken) true (run.last + 1)
                  (Word.add_one_le below)
    else
      .ask (.inl .readFlag) fun (raised : Bool) ↦
        .done ⟨item, run.last, if raised then .cancelled else .exhausted, shares, foundAny⟩
termination_by max.toNat - nonce.toNat
decreasing_by exact Word.sub_add_one_lt run.first_le below

theorem erase_watchedSearch (kernel : Kernel) (max : Word) (item : WorkItem) (shares : Nat)
    (foundAny : Bool) (nonce : Word) (h : nonce ≤ max) :
    (watchedSearch kernel max item shares foundAny nonce h).erase =
      search kernel max item shares foundAny nonce h := by
  induction hleft : max.toNat - nonce.toNat using Nat.strong_induction_on
    generalizing item shares foundAny nonce with
  | h left ih =>
    rw [watchedSearch, search, Routine.erase_mark, Routine.erase_bind, Kernel.erase_watchedRun]
    apply congrArg
    funext result
    obtain ⟨next, run⟩ := result
    dsimp only
    split
    · rw [Routine.erase_bind, watchedSubmit, Routine.erase_mark, Routine.erase_unmarked]
      apply congrArg
      funext result
      cases result with
      | none => rfl
      | some taken =>
        dsimp only
        split
        · rfl
        · rename_i hlast
          have hbelow := UInt32.lt_of_le_of_ne run.le_last hlast
          have hdecreases := Word.sub_add_one_lt run.first_le hbelow
          apply congrArg (Routine.ask Event.readFlag)
          funext raised
          cases raised with
          | true => rfl
          | false => exact ih _ (hleft ▸ hdecreases) _ _ _ _ _ rfl
    · rfl

def watchedScan (scanner : Scanner) (item : WorkItem) (ceiling : Nat) : Watching (WorkItem × Report) :=
  match scanner.kernelFor item with
  | none => .unmarked (scanner.scan item ceiling)
  | some kernel =>
    let first := item.nextNonce
    let ceiling := min ceiling UInt32.size
    if h : first < ceiling then
      (watchedSearch kernel (ceiling - 1).toUInt32 item 0 false first.toUInt32 (nextNonce_le h)).bind
        fun stop ↦
          let last := stop.last.toNat
          let processed := if !stop.foundAny && last == first then 0 else last - first + 1
          .done (stop.item.withNextNonce (last + 1), ⟨processed, stop.ending, stop.shares⟩)
    else .done (item, .idle)

/-- A watched scan does what the scan does. -/
theorem erase_watchedScan (scanner : Scanner) (item : WorkItem) (ceiling : Nat) :
    (scanner.watchedScan item ceiling).erase = scanner.scan item ceiling := by
  cases hkernel : scanner.kernelFor item with
  | none =>
    rw [watchedScan, hkernel]
    exact Routine.erase_unmarked _
  | some kernel =>
    rw [watchedScan, scan, hkernel]
    dsimp only
    split
    · rw [Routine.erase_bind, erase_watchedSearch]
      rfl
    · rfl

end Scanner

end Hashwork
