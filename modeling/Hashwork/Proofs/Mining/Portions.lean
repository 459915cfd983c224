import Hashwork.Mining.Worker
import Hashwork.Proofs.Work.Accepted

/-!
# Portions and pieces

The portions of the workers are next to each other and make up all nonces, however many workers there are.  So
are the pieces of a portion.
-/

namespace Hashwork

namespace Mining

/-- Whether a nonce is among those of a portion. -/
def Portion.Has (p : Portion) (n : Nat) : Prop :=
  p.first ≤ n ∧ n < p.finish

section Portions

variable {workers i j n : Nat}

theorem portion_first (workers i : Nat) : (portion workers i).first = i * (UInt32.size / workers) :=
  rfl

/-- A portion ends where the next one begins. -/
theorem portion_finish_of_lt (h : i + 1 < workers) :
    (portion workers i).finish = (portion workers (i + 1)).first := by
  rw [portion_first, Nat.succ_mul]
  exact if_neg (Nat.ne_of_lt h)

theorem portion_finish_of_last (h : i + 1 = workers) : (portion workers i).finish = UInt32.size :=
  if_pos h

theorem portion_first_le_finish (h : i < workers) :
    (portion workers i).first ≤ (portion workers i).finish := by
  rcases Nat.lt_or_eq_of_le (Nat.succ_le_of_lt h) with hlt | heq
  · rw [portion_finish_of_lt hlt, portion_first, portion_first]
    exact Nat.mul_le_mul_right _ (Nat.le_succ i)
  · rw [portion_finish_of_last heq, portion_first]
    calc
      _ ≤ workers * (UInt32.size / workers) := Nat.mul_le_mul_right _ (Nat.le_of_lt h)
      _ ≤ UInt32.size := Nat.mul_div_le _ _

theorem portion_finish_le (h : i < workers) : (portion workers i).finish ≤ UInt32.size := by
  rcases Nat.lt_or_eq_of_le (Nat.succ_le_of_lt h) with hlt | heq
  · rw [portion_finish_of_lt hlt, portion_first]
    calc
      _ ≤ workers * (UInt32.size / workers) := Nat.mul_le_mul_right _ (Nat.le_of_lt hlt)
      _ ≤ UInt32.size := Nat.mul_div_le _ _
  · exact Nat.le_of_eq (portion_finish_of_last heq)

theorem portion_finish_le_first (hlt : i < j) (hj : j < workers) :
    (portion workers i).finish ≤ (portion workers j).first := by
  rw [portion_finish_of_lt (Nat.lt_of_le_of_lt hlt hj), portion_first, portion_first]
  exact Nat.mul_le_mul_right _ hlt

theorem portion_disjoint (hi : i < workers) (hj : j < workers) (hni : (portion workers i).Has n)
    (hnj : (portion workers j).Has n) : i = j := by
  rcases Nat.lt_trichotomy i j with hlt | heq | hlt
  · exact absurd (portion_finish_le_first hlt hj) (Nat.not_le.mpr (Nat.lt_of_le_of_lt hnj.1 hni.2))
  · exact heq
  · exact absurd (portion_finish_le_first hlt hi) (Nat.not_le.mpr (Nat.lt_of_le_of_lt hni.1 hnj.2))

theorem exists_portion (hworkers : 0 < workers) (hn : n < UInt32.size) :
    ∃ i < workers, (portion workers i).Has n := by
  have hbelow (m : Nat) (hm : m < workers) (hlt : n < (portion workers m).finish) :
      ∃ i < workers, (portion workers i).Has n := by
    induction m with
    | zero => exact ⟨0, hm, by rw [portion_first, Nat.zero_mul]; exact Nat.zero_le n, hlt⟩
    | succ m ih =>
      rcases Nat.lt_or_ge n (portion workers (m + 1)).first with hbefore | hfrom
      · rw [← portion_finish_of_lt hm] at hbefore
        exact ih (Nat.lt_of_succ_lt hm) hbefore
      · exact ⟨m + 1, hm, hfrom, hlt⟩
  apply hbelow (workers - 1) (Nat.sub_lt hworkers Nat.one_pos)
  rw [portion_finish_of_last (Nat.sub_add_cancel hworkers)]
  exact hn

end Portions

/-- Part `k` of a portion. -/
def Portion.piece (p : Portion) (k : Nat) : Portion :=
  ⟨p.first + k * pieceLength, min (p.first + (k + 1) * pieceLength) p.finish⟩

section Pieces

variable {p : Portion} {k l n : Nat}

theorem eq_div_of_piece_has (h : (p.piece k).Has n) : k = (n - p.first) / pieceLength := by
  obtain ⟨hfirst, hfinish⟩ := h
  have hlt : n < p.first + (k + 1) * pieceLength := Nat.lt_of_lt_of_le hfinish (Nat.min_le_left ..)
  refine (Nat.div_eq_of_lt_le ?_ ?_).symm
  · exact Nat.le_sub_of_add_le (Nat.add_comm _ p.first ▸ hfirst)
  · exact Nat.sub_lt_left_of_lt_add (Nat.le_of_add_right_le hfirst) hlt

theorem piece_disjoint (hk : (p.piece k).Has n) (hl : (p.piece l).Has n) : k = l :=
  (eq_div_of_piece_has hk).trans (eq_div_of_piece_has hl).symm

theorem exists_piece (h : p.Has n) : ∃ k, (p.piece k).Has n := by
  have hpos : 0 < pieceLength := by decide
  refine ⟨(n - p.first) / pieceLength, ?_, Nat.lt_min.mpr ⟨?_, h.2⟩⟩
  · calc
      _ ≤ p.first + (n - p.first) := Nat.add_le_add_left (Nat.div_mul_le_self _ _) _
      _ = n := Nat.add_sub_cancel' h.1
  · calc
      n = p.first + (n - p.first) := (Nat.add_sub_cancel' h.1).symm
      _ < p.first + ((n - p.first) / pieceLength + 1) * pieceLength :=
        Nat.add_lt_add_left (Nat.lt_mul_of_div_lt (Nat.lt_succ_self _) hpos) _

theorem piece_has (h : (p.piece k).Has n) : p.Has n :=
  ⟨Nat.le_of_add_right_le h.1, Nat.lt_of_lt_of_le h.2 (Nat.min_le_right ..)⟩

end Pieces

/-- The pieces that a worker has been through, of which the last may have been cut short by the flag. -/
inductive Walked (p : Portion) (flag : Bool) : List Portion → Nat → Prop
  | whole (k : Nat) :
    Walked p flag ((List.range k).map p.piece) (min (p.first + k * pieceLength) p.finish)
  | cut (k : Nat) {stop : Nat} (hflag : flag = true) (hlt : (p.piece k).first < stop)
    (hlt' : stop < (p.piece k).finish) :
    Walked p flag ((List.range k).map p.piece ++ [⟨(p.piece k).first, stop⟩]) stop

section Walks

variable {p : Portion} {flag : Bool} {passed : List Portion} {reached : Nat}

/-- The piece that comes next. -/
theorem piece_eq {k : Nat} (hreached : reached = min (p.first + k * pieceLength) p.finish)
    (hlt : reached < p.finish) : p.piece k = ⟨reached, min (reached + pieceLength) p.finish⟩ := by
  have hfirst : reached = p.first + k * pieceLength := by omega
  rw [Portion.piece, hfirst, Nat.succ_mul, Nat.add_assoc]

theorem map_piece_succ (p : Portion) (k : Nat) :
    (List.range k).map p.piece ++ [p.piece k] = (List.range (k + 1)).map p.piece := by
  rw [List.range_succ, List.map_append, List.map_singleton]

theorem Walked.last {k stop : Nat} (hreached : reached = min (p.first + k * pieceLength) p.finish)
    (hle : reached ≤ stop) (hstop : stop ≤ min (reached + pieceLength) p.finish)
    (hflag : p.finish ≤ stop ∨ flag = true) :
    Walked p flag (if reached < stop then (List.range k).map p.piece ++ [⟨reached, stop⟩]
      else (List.range k).map p.piece) stop := by
  rcases Nat.lt_or_eq_of_le hle with hlt | rfl
  · have hpiece := piece_eq hreached (hlt.trans_le (hstop.trans (Nat.min_le_right ..)))
    rw [if_pos hlt]
    rcases Nat.lt_or_eq_of_le hstop with hcut | rfl
    · have hraised := hflag.resolve_left (Nat.not_le.mpr (hcut.trans_le (Nat.min_le_right ..)))
      have hwalked : Walked p flag ((List.range k).map p.piece ++ [⟨(p.piece k).first, stop⟩]) stop :=
        .cut k hraised (by rwa [hpiece]) (by rwa [hpiece])
      rwa [hpiece] at hwalked
    · have hwalked : Walked p flag ((List.range (k + 1)).map p.piece) (p.piece k).finish :=
        .whole (k + 1)
      rwa [← map_piece_succ, hpiece] at hwalked
  · rw [if_neg (Nat.lt_irrefl _), hreached]
    exact .whole k

theorem Walked.within (h : Walked p flag passed reached) :
    ∀ stretch ∈ passed, p.first ≤ stretch.first ∧ stretch.finish ≤ reached := by
  have hpiece (k l : Nat) (hlt : l < k) : p.first ≤ (p.piece l).first ∧
      (p.piece l).finish ≤ min (p.first + k * pieceLength) p.finish := by
    refine ⟨Nat.le_add_right _ _, Nat.le_min.mpr ⟨?_, Nat.min_le_right ..⟩⟩
    calc
      (p.piece l).finish ≤ p.first + (l + 1) * pieceLength := Nat.min_le_left ..
      _ ≤ p.first + k * pieceLength := Nat.add_le_add_left (Nat.mul_le_mul_right _ hlt) _
  cases h with
  | whole k =>
    intro stretch hmem
    obtain ⟨l, hl, rfl⟩ := List.mem_map.mp hmem
    exact hpiece k l (List.mem_range.mp hl)
  | cut k hraised hlt hlt' =>
    intro stretch hmem
    rcases List.mem_append.mp hmem with hmem | hmem
    · obtain ⟨l, hl, rfl⟩ := List.mem_map.mp hmem
      obtain ⟨hfirst, hfinish⟩ := hpiece k l (List.mem_range.mp hl)
      exact ⟨hfirst, (hfinish.trans (Nat.min_le_left ..)).trans hlt.le⟩
    · obtain rfl := List.mem_singleton.mp hmem
      exact ⟨Nat.le_add_right _ _, Nat.le_refl _⟩

/-- What lies before where a worker has got to, it has passed. -/
theorem Walked.exists_has (h : Walked p flag passed reached) {n : Nat} (hn : p.Has n)
    (hlt : n < reached) : ∃ stretch ∈ passed, stretch.Has n := by
  obtain ⟨l, hl⟩ := exists_piece hn
  have hbefore (k : Nat) (hk : n < p.first + k * pieceLength) : p.piece l ∈ (List.range k).map p.piece := by
    have hlt : l * pieceLength < k * pieceLength := Nat.lt_of_add_lt_add_left (hl.1.trans_lt hk)
    exact List.mem_map.mpr ⟨l, List.mem_range.mpr (Nat.lt_of_mul_lt_mul_right hlt), rfl⟩
  cases h with
  | whole k => exact ⟨_, hbefore k (hlt.trans_le (Nat.min_le_left ..)), hl⟩
  | cut k =>
    rcases Nat.lt_or_ge n (p.piece k).first with hk | hk
    · exact ⟨_, List.mem_append_left _ (hbefore k hk), hl⟩
    · exact ⟨_, List.mem_append_right _ (List.mem_singleton.mpr rfl), hk, hlt⟩

theorem Walked.first_le (h : Walked p flag passed reached) (hp : p.first ≤ p.finish) :
    p.first ≤ reached := by
  cases h with
  | whole k => exact Nat.le_min.mpr ⟨Nat.le_add_right _ _, hp⟩
  | cut k _ hlt => exact (Nat.le_add_right _ _).trans hlt.le

theorem Walked.le_finish (h : Walked p flag passed reached) : reached ≤ p.finish := by
  cases h with
  | whole k => exact Nat.min_le_right ..
  | cut k _ _ hlt' => exact hlt'.le.trans (Nat.min_le_right ..)

end Walks

end Mining

/-- The shares of all portions are those of all nonces. -/
theorem WorkItem.flatMap_acceptedShares_portion (item : WorkItem) {workers : Nat}
    (hworkers : 0 < workers) :
    ((List.range workers).flatMap fun i ↦
      item.acceptedShares (Mining.portion workers i).first (Mining.portion workers i).finish) =
        item.acceptedShares 0 UInt32.size := by
  have hbelow (m : Nat) (hm : m < workers) : ((List.range m).flatMap fun i ↦
      item.acceptedShares (Mining.portion workers i).first (Mining.portion workers i).finish) =
        item.acceptedShares 0 (Mining.portion workers m).first := by
    induction m with
    | zero => simp [Mining.portion_first]
    | succ m ih =>
      have hle := Mining.portion_first_le_finish (Nat.lt_of_succ_lt hm)
      rw [List.range_succ, List.flatMap_append, List.flatMap_singleton, ih (Nat.lt_of_succ_lt hm),
        item.acceptedShares_append (Nat.zero_le _) hle, Mining.portion_finish_of_lt hm]
  obtain ⟨m, rfl⟩ := Nat.exists_eq_add_of_le' hworkers
  have hle := Mining.portion_first_le_finish (Nat.lt_succ_self m)
  rw [List.range_succ, List.flatMap_append, List.flatMap_singleton, hbelow m (Nat.lt_succ_self m),
    item.acceptedShares_append (Nat.zero_le _) hle, Mining.portion_finish_of_last rfl]

end Hashwork
