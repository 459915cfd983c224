import Hashwork.Proofs.Mining.Duty
import Mathlib.Algebra.Order.BigOperators.Group.List

/-!
# Which nonces count

A turn tallies what its scan reports.  This is the number of nonces that the scan has passed, except that a single
nonce counts as no progress unless it is accepted.  A worker that is not interrupted scans whole pieces, so of its
portion at most the very last nonce does not count.
-/

namespace Hashwork

namespace WorkItem

variable {item other : WorkItem} {first finish : Nat}

/-- What a scan reports that has passed these nonces. -/
def processed (item : WorkItem) (first finish : Nat) : Nat :=
  if finish = first + 1 ∧ item.accepts first.toUInt32 = false then 0 else finish - first

theorem processed_le (item : WorkItem) (first finish : Nat) :
    item.processed first finish ≤ finish - first := by
  unfold processed
  split
  · exact Nat.zero_le _
  · exact Nat.le_refl _

theorem processed_of_ne (h : finish ≠ first + 1) : item.processed first finish = finish - first :=
  if_neg fun hsingle ↦ h hsingle.1

@[simp]
theorem processed_self (item : WorkItem) (n : Nat) : item.processed n n = 0 :=
  Nat.le_zero.mp ((item.processed_le n n).trans_eq (Nat.sub_self n))

theorem processed_eq_of_template (h : item.template = other.template) :
    item.processed = other.processed := by
  funext first finish
  rw [processed, processed, accepts_eq_of_template h]

theorem isEmpty_acceptedShares_single (item : WorkItem) (n : Nat) :
    (item.acceptedShares n (n + 1)).isEmpty = true ↔ item.accepts n.toUInt32 = false := by
  have hsingle : noncesBetween n (n + 1) = [n.toUInt32] := by simp [noncesBetween]
  cases haccepts : item.accepts n.toUInt32 <;> simp [acceptedShares, hsingle, haccepts]

end WorkItem

theorem Scanner.Scanned.processed_eq_processed {item other : WorkItem} {ceiling : Nat}
    {t : Scan.Transcript} {report : Scan.Report} (h : Scanned item ceiling t other report) :
    report.processed = item.processed item.nextNonce other.nextNonce := by
  have hempty : (Scan.offersIn t).isEmpty =
      (item.acceptedShares item.nextNonce other.nextNonce).isEmpty := by
    rw [← h.offers_eq, List.isEmpty_map]
  rw [h.processed_eq, WorkItem.processed, hempty]
  by_cases hsingle : other.nextNonce = item.nextNonce + 1
  · simp only [hsingle, item.isEmpty_acceptedShares_single, and_comm]
  · simp only [hsingle, and_false, false_and]

namespace Mining

namespace Worker

/-- What is added to the tally with an event. -/
def Event.tallies : Event → List Nat
  | .tally nonces => [nonces]
  | _ => []

/-- What a worker has added to the tally. -/
def talliesIn (t : Transcript) : List Nat :=
  t.flatMap fun exchange ↦ exchange.1.tallies

@[simp]
theorem talliesIn_append (t t' : Transcript) : talliesIn (t ++ t') = talliesIn t ++ talliesIn t' :=
  List.flatMap_append

@[simp]
theorem talliesIn_singleton (e : Event) (answer : e.Answer) : talliesIn [⟨e, answer⟩] = e.tallies :=
  List.append_nil _

/-- A scan leaves the tally alone. -/
theorem talliesIn_ofScan (asked : List ((e : Scan.Event) × (Event.ofScan e).Answer)) :
    talliesIn (ofScan asked) = [] := by
  induction asked with
  | nil => rfl
  | cons x asked ih =>
    obtain ⟨e, answer⟩ := x
    cases e <;> exact ih

theorem talliesIn_scanning (asked : List ((e : Scan.Event) × (Event.ofScan e).Answer)) (nonces : Nat) :
    talliesIn (scanning asked nonces) = [nonces] := by
  have hscan : talliesIn (ofScan asked ++ [⟨.tally nonces, ()⟩]) = [nonces] := by
    rw [talliesIn_append, talliesIn_ofScan]
    rfl
  exact hscan

/-- A turn tallies what it has passed, as far as it counts. -/
theorem sum_talliesIn {scanner : Scanner} {kernel : Kernel} {finish : Nat} {item : WorkItem}
    {t : Transcript} {turn : Turn} (hkernel : scanner.kernelFor item = some kernel)
    (hexact : kernel.Exact) (hconsistent : item.Consistent) (hfinish : finish ≤ UInt32.size)
    (htrace : Routine.Trace (Worker.turn scanner finish item) t turn) :
    (talliesIn t).sum = item.processed item.nextNonce turn.item.nextNonce := by
  rcases idle_or_scanned hkernel hexact hconsistent hfinish htrace with
    ⟨cancelled, -, rfl, rfl⟩ | ⟨asked, other, report, hscanned, rfl, rfl⟩
  · exact (item.processed_self item.nextNonce).symm
  · have hitem : (if report.ending = .cancelled then Turn.last other else .again other).item = other := by
      split <;> rfl
    rw [talliesIn_scanning, List.sum_singleton, hitem]
    exact hscanned.processed_eq_processed

end Worker

/-! ## Whole portions -/

section Portions

variable {p : Portion} {flag : Bool} {passed : List Portion} {reached : Nat}

def Portion.length (p : Portion) : Nat :=
  p.finish - p.first

/-- What the scans of these stretches report together. -/
def processedIn (item : WorkItem) (stretches : List Portion) : Nat :=
  (stretches.map fun stretch ↦ item.processed stretch.first stretch.finish).sum

/-- The length of all stretches together. -/
def lengthOf (stretches : List Portion) : Nat :=
  (stretches.map Portion.length).sum

/-- The last piece of a portion may be a single nonce.  If it is not accepted it does not count. -/
def Portion.uncounted (p : Portion) (item : WorkItem) : Nat :=
  if p.length % pieceLength = 1 ∧ item.accepts (p.finish - 1).toUInt32 = false then 1 else 0

theorem processedIn_le_lengthOf (item : WorkItem) (stretches : List Portion) :
    processedIn item stretches ≤ lengthOf stretches :=
  List.sum_le_sum fun stretch _ ↦ item.processed_le stretch.first stretch.finish

theorem lengthOf_concat (stretches : List Portion) (stretch : Portion) :
    lengthOf (stretches ++ [stretch]) = lengthOf stretches + stretch.length := by
  simp [lengthOf]

theorem processedIn_concat (item : WorkItem) (stretches : List Portion) (stretch : Portion) :
    processedIn item (stretches ++ [stretch]) =
      processedIn item stretches + item.processed stretch.first stretch.finish := by
  simp [processedIn]

theorem piece_first (p : Portion) (k : Nat) : (p.piece k).first = p.first + k * pieceLength := rfl

theorem piece_finish (p : Portion) (k : Nat) :
    (p.piece k).finish = min (p.first + (k * pieceLength + pieceLength)) p.finish := by
  rw [Portion.piece, Nat.succ_mul]

theorem lengthOf_pieces (h : p.first ≤ p.finish) (k : Nat) :
    lengthOf ((List.range k).map p.piece) = min (p.first + k * pieceLength) p.finish - p.first := by
  induction k with
  | zero =>
    rw [Nat.zero_mul, Nat.add_zero, Nat.min_eq_left h, Nat.sub_self]
    rfl
  | succ k ih =>
    rw [← map_piece_succ, lengthOf_concat, ih, Portion.length, piece_first, piece_finish, Nat.succ_mul]
    generalize pieceLength = length
    omega

/-- The stretches that a worker has been through are as long as its way. -/
theorem Walked.lengthOf_eq (h : Walked p flag passed reached) (hp : p.first ≤ p.finish) :
    lengthOf passed = reached - p.first := by
  cases h with
  | whole k => exact lengthOf_pieces hp k
  | cut k hraised hlt hlt' =>
    have hwithin : reached < p.finish := hlt'.trans_le (Nat.min_le_right ..)
    rw [piece_first] at hlt
    rw [lengthOf_concat, lengthOf_pieces hp k, piece_first, Portion.length]
    dsimp only
    generalize k * pieceLength = before at hlt ⊢
    omega

/-- Whether piece `k` is the one that the portion ends with. -/
def Portion.EndsIn (p : Portion) (k : Nat) : Prop :=
  p.first + k * pieceLength < p.finish ∧ p.finish ≤ p.first + (k * pieceLength + pieceLength)

/-- The last piece is a single nonce exactly if this is what is left of the portion. -/
theorem Portion.EndsIn.length_mod_eq_one_iff {k : Nat} (h : p.EndsIn k) :
    p.length % pieceLength = 1 ↔ p.finish = p.first + k * pieceLength + 1 := by
  have hlong : 1 < pieceLength := by decide
  obtain ⟨hlt, hle⟩ := h
  obtain ⟨r, hr⟩ := Nat.exists_eq_add_of_lt hlt
  rw [Portion.length]
  generalize pieceLength = length at *
  have hlength : p.finish - p.first = k * length + (r + 1) := by omega
  have hrest : r + 1 ≤ length := by omega
  rw [hlength, Nat.mul_add_mod']
  rcases Nat.lt_or_eq_of_le hrest with hlt | heq
  · rw [Nat.mod_eq_of_lt hlt]
    omega
  · rw [heq, Nat.mod_self]
    omega

/-- The last piece of a portion. -/
theorem Portion.EndsIn.processed_add_uncounted {k : Nat} (h : p.EndsIn k) (item : WorkItem) :
    item.processed (p.piece k).first (p.piece k).finish + p.uncounted item = (p.piece k).length := by
  have hfinish : (p.piece k).finish = p.finish := by
    rw [piece_finish]
    exact Nat.min_eq_right h.2
  have hlength : (p.piece k).length = p.finish - (p.piece k).first :=
    congrArg (· - (p.piece k).first) hfinish
  rw [WorkItem.processed, Portion.uncounted, hlength, hfinish, piece_first]
  simp only [h.length_mod_eq_one_iff]
  by_cases hsingle : p.finish = p.first + k * pieceLength + 1
  · rw [hsingle, Nat.add_sub_cancel]
    split <;> omega
  · rw [if_neg fun hlost ↦ hsingle hlost.1, if_neg fun hlost ↦ hsingle hlost.1, Nat.add_zero]

/-- All of a piece counts, unless it is the last of its portion. -/
theorem processed_piece_of_not_endsIn {k : Nat} (h : ¬ p.EndsIn k) (item : WorkItem) :
    item.processed (p.piece k).first (p.piece k).finish = (p.piece k).length := by
  have hlong : 1 < pieceLength := by decide
  rw [Portion.length, piece_first, piece_finish]
  unfold Portion.EndsIn at h
  generalize pieceLength = length at *
  apply WorkItem.processed_of_ne
  omega

theorem processedIn_pieces (item : WorkItem) (p : Portion) (k : Nat) :
    processedIn item ((List.range k).map p.piece) +
        (if p.finish ≤ p.first + k * pieceLength then p.uncounted item else 0) =
      lengthOf ((List.range k).map p.piece) := by
  induction k with
  | zero =>
    -- A portion that is empty has no last nonce.
    have hnone : p.finish ≤ p.first → p.uncounted item = 0 := by
      intro hle
      rw [Portion.uncounted, Portion.length, Nat.sub_eq_zero_of_le hle, Nat.zero_mod]
      exact if_neg fun hone ↦ Nat.zero_ne_one hone.1
    rw [Nat.zero_mul, Nat.add_zero]
    split
    · rename_i hle
      rw [hnone hle]
      rfl
    · rfl
  | succ k ih =>
    rw [← map_piece_succ, processedIn_concat, lengthOf_concat, ← ih, Nat.succ_mul]
    by_cases hlast : p.EndsIn k
    · rw [← hlast.processed_add_uncounted item, if_pos hlast.2, if_neg hlast.1.not_ge, Nat.add_zero,
        Nat.add_assoc]
    · have hdone : p.finish ≤ p.first + (k * pieceLength + pieceLength) ↔
          p.finish ≤ p.first + k * pieceLength := by
        unfold Portion.EndsIn at hlast
        omega
      rw [processed_piece_of_not_endsIn hlast, Nat.add_right_comm]
      simp only [hdone]

/-- A worker that has been through its portion without an interruption has reported all of it that counts. -/
theorem Walked.processedIn_add_uncounted (h : Walked p flag passed reached) (hflag : flag = false)
    (hreached : reached = p.finish) (item : WorkItem) :
    processedIn item passed + p.uncounted item = lengthOf passed := by
  cases h with
  | whole k =>
    have hdone : p.finish ≤ p.first + k * pieceLength := hreached.ge.trans (Nat.min_le_left ..)
    have hpieces := processedIn_pieces item p k
    rwa [if_pos hdone] at hpieces
  | cut k hraised => cases hraised.symm.trans hflag

end Portions

end Mining

end Hashwork
