import Hashwork.Proofs.Scan.Call

/-!
# No arithmetic overflows

Nonces are words, which wrap, and counts are kept in 64 bits.  A guarded scan is the same scan with a
test before each sum, difference and conversion: where a result does not fit, it ends with `none`.  It is
equal to the scan, so no test ever fails, whatever the surroundings answer.
-/

namespace Hashwork

namespace Routine

variable {E : Type} {R : E → Type} {α : Type}

/-- Goes on only if what is to be computed fits. -/
def guarded (fits : Prop) [Decidable fits] (r : Routine E R (Option α)) : Routine E R (Option α) :=
  if fits then r else .done none

theorem guarded_of_fits {fits : Prop} [Decidable fits] (h : fits) (r : Routine E R (Option α)) :
    guarded fits r = r :=
  if_pos h

end Routine

/-- The sum of two words is a word. -/
abbrev Word.SumFits (x y : Word) : Prop := x.toNat + y.toNat < UInt32.size

/-- The difference of two words is a word. -/
abbrev Word.DifferenceFits (x y : Word) : Prop := y ≤ x

/-- A number that does not lead past the last word fits, and so does the sum. -/
theorem Word.fits_toUInt32 {x : Word} {n : Nat} (h : x.toNat + n < UInt32.size) :
    n < UInt32.size ∧ SumFits x n.toUInt32 := by
  have hn : n < UInt32.size := Nat.lt_of_add_left_lt h
  constructor
  · exact hn
  · rw [SumFits, Nat.toUInt32_eq, UInt32.toNat_ofNat_of_lt' hn]
    exact h

theorem Word.sumFits_one {x max : Word} (h : x < max) : SumFits x 1 := by
  calc
    x.toNat + 1 ≤ max.toNat := h
    _ < UInt32.size := max.toNat_lt

/-- A range begins with its first nonce. -/
theorem NonceRange.first_le_first (range : NonceRange) : range.first ≤ range.first :=
  UInt32.le_refl _

namespace Kernel

section Batches

variable {S : Type} (lanes : Nat)
  (hash : (base : Word) → (count : Nat) → count ≤ lanes → S × WorkItem →
    Option ((S × WorkItem) × Option (Fin count)))

def guardedBatches (range : NonceRange) (base : Word) (first_le : range.first ≤ base)
    (le_last : base ≤ range.last) (s : S × WorkItem) : Polling (Option (WorkItem × Run range)) :=
  .guarded (Word.DifferenceFits range.last base) <|
  let count := min (range.last.toNat - base.toNat + 1) lanes
  match hash base count (Nat.min_le_right ..) s with
  | none => .done none
  | some ((_, item), some lane) =>
    have inside : lane.val ≤ range.last.toNat - base.toNat :=
      Nat.le_of_lt_succ (Nat.lt_of_lt_of_le lane.isLt (Nat.min_le_left ..))
    .guarded (lane.val < UInt32.size ∧ Word.SumFits base lane.val.toUInt32) <|
    .done (some (item,
      { found := true
        last := base + lane.val.toUInt32
        first_le := UInt32.le_trans first_le (Word.le_add_of_le_sub inside le_last)
        le_last := Word.add_le_of_le_sub inside le_last }))
  | some ((scratch, item), none) =>
    have inside : count - 1 ≤ range.last.toNat - base.toNat :=
      Nat.sub_le_of_le_add (Nat.min_le_left ..)
    .guarded (count < UInt32.size ∧ 1 ≤ count ∧ Word.SumFits base (count - 1).toUInt32) <|
    let last := base + (count - 1).toUInt32
    let item := item.tried last
    have base_le : base ≤ last := Word.le_add_of_le_sub inside le_last
    let run : Run range :=
      { found := false
        last := last
        first_le := UInt32.le_trans first_le base_le
        le_last := Word.add_le_of_le_sub inside le_last }
    if h : last = range.last then .done (some (item, run))
    else
      have below : last < range.last := UInt32.lt_of_le_of_ne run.le_last h
      .ask () fun cancelled ↦
        if cancelled then .done (some (item, run))
        else
          .guarded (Word.SumFits last 1) <|
          guardedBatches range (last + 1) (Word.le_add_one run.first_le below) (Word.add_one_le below)
            (scratch, item)
termination_by range.last.toNat - base.toNat
decreasing_by exact Word.sub_add_one_lt base_le below

variable {lanes}
  {hash : (base : Word) → (count : Nat) → count ≤ lanes → S × WorkItem →
    Option ((S × WorkItem) × Option (Fin count))}
  {plain : (base : Word) → (count : Nat) → count ≤ lanes → S × WorkItem →
    (S × WorkItem) × Option (Fin count)}

theorem guardedBatches_eq (hlanes : 0 < lanes ∧ lanes ≤ 32)
    (hhash : ∀ base count h s, base.toNat + count ≤ UInt32.size →
      hash base count h s = some (plain base count h s))
    {range : NonceRange} {base : Word} (first_le : range.first ≤ base) (le_last : base ≤ range.last)
    (s : S × WorkItem) :
    guardedBatches lanes hash range base first_le le_last s =
      (runBatches lanes plain range base first_le le_last s).bind fun result ↦ .done (some result) := by
  induction hleft : range.last.toNat - base.toNat using Nat.strong_induction_on
    generalizing base s with
  | h left ih =>
    have hle : base.toNat ≤ range.last.toNat := le_last
    have hsize : range.last.toNat < UInt32.size := range.last.toNat_lt
    have hbatch : 32 < UInt32.size := by decide
    have hfits {n : Nat} (h : n ≤ range.last.toNat - base.toNat) :
        n < UInt32.size ∧ Word.SumFits base n.toUInt32 :=
      Word.fits_toUInt32 (by omega)
    rw [guardedBatches, runBatches, Routine.guarded_of_fits le_last]
    simp only
    rw [hhash base _ _ s (by omega)]
    obtain ⟨⟨scratch, item⟩, _ | lane⟩ := plain base _ (Nat.min_le_right
      (range.last.toNat - base.toNat + 1) lanes) s
    · dsimp only
      have hinside : min (range.last.toNat - base.toNat + 1) lanes - 1 ≤
          range.last.toNat - base.toNat := by omega
      rw [Routine.guarded_of_fits ⟨by omega, by omega, (hfits hinside).2⟩]
      split
      · rfl
      · rename_i hlast
        have hbelow := UInt32.lt_of_le_of_ne (Word.add_le_of_le_sub hinside le_last) hlast
        have hdecreases := Word.sub_add_one_lt (Word.le_add_of_le_sub hinside le_last) hbelow
        simp only [Routine.bind, Routine.guarded_of_fits (Word.sumFits_one hbelow)]
        apply congrArg
        funext cancelled
        split
        · rfl
        · exact ih _ (hleft ▸ hdecreases) _ _ _ rfl
    · dsimp only
      have hinside : lane.val ≤ range.last.toNat - base.toNat := by
        have hlane := lane.isLt
        omega
      rw [Routine.guarded_of_fits (hfits hinside)]
      rfl

end Batches

def guardedSift (hasher : Hasher) (prepared : Prepared) (base : Word) {count : Nat}
    (h : count ≤ hasher.lanes) (words : Vector Word hasher.lanes) :
    List (Fin count) → WorkItem → Option (WorkItem × Option (Fin count))
  | [], item => some (item, none)
  | lane :: rest, item =>
    if Sha256.mayBeAccepted (words.get (lane.castLE h)) item.target.topWord then
      if lane.val < UInt32.size ∧ Word.SumFits base lane.val.toUInt32 then
        let hash := (hasher.digest prepared base lane).toBytes
        let item := item.record (base + lane.val.toUInt32) hash
        if item.target.accepts hash then some (item, some lane)
        else guardedSift hasher prepared base h words rest item
      else none
    else guardedSift hasher prepared base h words rest item

def guardedHashBatch (hasher : Hasher) (prepared : Prepared) (base : Word) (count : Nat)
    (h : count ≤ hasher.lanes) (s : Vector Word hasher.lanes × WorkItem) :
    Option ((Vector Word hasher.lanes × WorkItem) × Option (Fin count)) :=
  let words := hasher.fill prepared base s.1
  (guardedSift hasher prepared base h words (List.finRange count) s.2).map fun (item, accepted) ↦
    ((words, item), accepted)

def guardedRun (kernel : Kernel) (item : WorkItem) (range : NonceRange) :
    Polling (Option (WorkItem × Run range)) :=
  match kernel with
  | sha256d hasher =>
    guardedBatches hasher.lanes (guardedHashBatch hasher (.ofItem item)) range range.first
      range.first_le_first range.ordered (Vector.replicate hasher.lanes 0, item)
  | scrypt =>
    guardedBatches 1 (fun base count h s ↦ some (scryptBatch base count h s)) range range.first
      range.first_le_first range.ordered (.empty, item)

theorem guardedSift_eq {hasher : Hasher} {prepared : Prepared} {base : Word} {count : Nat}
    {h : count ≤ hasher.lanes} {words : Vector Word hasher.lanes}
    (hfits : base.toNat + count ≤ UInt32.size) (lanes : List (Fin count)) (item : WorkItem) :
    guardedSift hasher prepared base h words lanes item =
      some (sift hasher prepared base h words lanes item) := by
  induction lanes generalizing item with
  | nil => rfl
  | cons lane rest ih =>
    have hlane : lane.val < UInt32.size ∧ Word.SumFits base lane.val.toUInt32 :=
      Word.fits_toUInt32 (Nat.lt_of_lt_of_le (Nat.add_lt_add_left lane.isLt _) hfits)
    have hword : words.get (lane.castLE h) = words[lane] := rfl
    rw [guardedSift, sift, if_pos hlane, hword]
    split
    · dsimp only
      split
      · rfl
      · exact ih _
    · exact ih _

/-- No arithmetic of a run overflows. -/
theorem guardedRun_eq (kernel : Kernel) (item : WorkItem) (range : NonceRange) :
    kernel.guardedRun item range = (kernel.run item range).bind fun result ↦ .done (some result) := by
  cases kernel with
  | sha256d hasher =>
    apply guardedBatches_eq hasher.lanes_range
    intro base count h s hfits
    rw [guardedHashBatch, guardedSift_eq hfits]
    rfl
  | scrypt =>
    apply guardedBatches_eq (by decide)
    intro base count h s _
    rfl

end Kernel

namespace Scanner

open Scan

def guardedSearch (kernel : Kernel) (max : Word) (item : WorkItem) (shares : Nat) (foundAny : Bool)
    (nonce : Word) (h : nonce ≤ max) : Scanning (Option Stop) :=
  ((kernel.guardedRun item ⟨nonce, max, h⟩).embed (fun _ ↦ .readFlag) (fun _ raised ↦ raised)).bind
    fun
      | none => .done none
      | some (item, run) =>
        if run.found then
          (submit item ⟨run.last, item.hash⟩).bind fun
            | none => .done (some ⟨item, run.last, .cancelled, shares, true⟩)
            | some taken =>
              .guarded (shares + taken < UInt64.size) <|
              if hlast : run.last = max then
                .done (some ⟨item, run.last, .exhausted, shares + taken, true⟩)
              else
                have below : run.last < max := UInt32.lt_of_le_of_ne run.le_last hlast
                .ask .readFlag fun raised ↦
                  if raised then .done (some ⟨item, run.last, .cancelled, shares + taken, true⟩)
                  else
                    .guarded (Word.SumFits run.last 1) <|
                    guardedSearch kernel max item (shares + taken) true (run.last + 1)
                      (Word.add_one_le below)
        else
          .ask .readFlag fun raised ↦
            .done (some ⟨item, run.last, if raised then .cancelled else .exhausted, shares, foundAny⟩)
termination_by max.toNat - nonce.toNat
decreasing_by exact Word.sub_add_one_lt run.first_le below

/-- What is left for an item to try begins below a ceiling that it has not reached. -/
theorem nextNonce_le {item : WorkItem} {ceiling : Nat}
    (h : item.nextNonce < min ceiling UInt32.size) :
    item.nextNonce.toUInt32 ≤ (min ceiling UInt32.size - 1).toUInt32 :=
  Word.toUInt32_le_sub_one h (Nat.min_le_right ..)

def guardedScan (scanner : Scanner) (item : WorkItem) (ceiling : Nat) :
    Scanning (Option (WorkItem × Report)) :=
  match scanner.kernelFor item with
  | none => (scanner.scan item ceiling).bind fun result ↦ .done (some result)
  | some kernel =>
    let first := item.nextNonce
    let ceiling := min ceiling UInt32.size
    if h : first < ceiling then
      .guarded (first < UInt32.size ∧ 1 ≤ ceiling ∧ ceiling - 1 < UInt32.size) <|
      (guardedSearch kernel (ceiling - 1).toUInt32 item 0 false first.toUInt32 (nextNonce_le h)).bind fun
        | none => .done none
        | some stop =>
          let last := stop.last.toNat
          let processed := if !stop.foundAny && last == first then 0 else last - first + 1
          .guarded (last + 1 < UInt64.size ∧ first ≤ last ∧ last - first + 1 < UInt64.size) <|
          .done (some (stop.item.withNextNonce (last + 1), ⟨processed, stop.ending, stop.shares⟩))
    else .done (some (item, .idle))

/-- A submission counts for one share at most. -/
theorem submit_bind_congr {α : Type} {f g : Option Nat → Scanning α} (item : WorkItem) (share : Share)
    (hnone : f none = g none) (hsome : ∀ taken ≤ 1, f (some taken) = g (some taken)) :
    (submit item share).bind f = (submit item share).bind g := by
  unfold submit
  split
  · apply congrArg (Routine.ask _)
    funext _
    apply congrArg (Routine.ask _)
    funext taken
    cases taken with
    | false => exact hnone
    | true => exact hsome 1 (Nat.le_refl 1)
  · exact congrArg (Routine.ask _) (funext fun _ ↦ hsome 0 (Nat.zero_le 1))

/-- No more shares are taken than nonces are passed. -/
theorem guardedSearch_eq (kernel : Kernel) (max : Word) (item : WorkItem) (shares : Nat)
    (foundAny : Bool) (nonce : Word) (h : nonce ≤ max) (hshares : shares ≤ nonce.toNat) :
    guardedSearch kernel max item shares foundAny nonce h =
      (search kernel max item shares foundAny nonce h).bind fun stop ↦ .done (some stop) := by
  induction hleft : max.toNat - nonce.toNat using Nat.strong_induction_on
    generalizing item shares foundAny nonce with
  | h left ih =>
    rw [guardedSearch, search, Kernel.guardedRun_eq, Routine.embed_bind, Routine.bind_assoc,
      Routine.bind_assoc]
    apply congrArg
    funext result
    obtain ⟨next, run⟩ := result
    have hfirst : nonce.toNat ≤ run.last.toNat := run.first_le
    have hmax : run.last.toNat < UInt32.size := run.last.toNat_lt
    have hwide : UInt32.size < UInt64.size := by decide
    simp only [Routine.embed, Routine.bind]
    split
    · rw [Routine.bind_assoc]
      apply submit_bind_congr
      · rfl
      · intro taken htaken
        dsimp only
        rw [Routine.guarded_of_fits (by omega)]
        split
        · rfl
        · rename_i hlast
          have hbelow := UInt32.lt_of_le_of_ne run.le_last hlast
          have hnext := Word.toNat_add_one hbelow
          have hdecreases := Word.sub_add_one_lt run.first_le hbelow
          have hshares' : shares + taken ≤ (run.last + 1).toNat := by omega
          apply congrArg
          funext raised
          cases raised with
          | true => rfl
          | false =>
            exact (Routine.guarded_of_fits (Word.sumFits_one hbelow) _).trans
              (ih _ (hleft ▸ hdecreases) _ _ _ _ _ hshares' rfl)
    · rfl

/-- No arithmetic of a scan overflows. -/
theorem guardedScan_eq (scanner : Scanner) (item : WorkItem) (ceiling : Nat) :
    scanner.guardedScan item ceiling =
      (scanner.scan item ceiling).bind fun result ↦ .done (some result) := by
  unfold guardedScan
  cases hkernel : scanner.kernelFor item with
  | none => rfl
  | some kernel =>
    dsimp only
    rw [scan, hkernel]
    dsimp only
    split
    · rename_i hlt
      rw [Routine.guarded_of_fits (by omega), guardedSearch_eq _ _ _ _ _ _ _ (Nat.zero_le _),
        Routine.bind_assoc, Routine.bind_assoc]
      apply Routine.bind_congr_of_trace
      intro t stop hsearch
      have hfirst : item.nextNonce ≤ stop.last.toNat := by
        have hle : item.nextNonce.toUInt32.toNat ≤ stop.last.toNat :=
          (stop_of_runs (runs_of_trace hsearch)).2
        rw [Nat.toUInt32_eq, UInt32.toNat_ofNat_of_lt' (by omega)] at hle
        exact hle
      have hlast : stop.last.toNat < UInt32.size := stop.last.toNat_lt
      have hwide : UInt32.size < UInt64.size := by decide
      exact Routine.guarded_of_fits ⟨by omega, hfirst, by omega⟩ _
    · rfl

end Scanner

end Hashwork
