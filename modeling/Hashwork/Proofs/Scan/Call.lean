import Hashwork.Proofs.Scan.Search

/-!
# One call of a scan

A scan that has a kernel for its item and nonces left below its ceiling is a search.  It moves the item's
next nonce to the one after the last that was decided; what it offers are the accepted shares in between.
Any other scan leaves everything as it is.
-/

namespace Hashwork.Scanner

open Scan

variable {scanner : Scanner} {item other : WorkItem} {ceiling : Nat} {t : Transcript} {report : Report}

/-- The scanners there are: for an algorithm, on some processor, and without a kernel. -/
inductive Built : Scanner → Prop
  | ofAlgorithm (processor : Processor) (algorithm : Algorithm) :
    Built (ofAlgorithm processor algorithm)
  | unavailable : Built unavailable

theorem kernelFor_eq_of_template (h : item.template = other.template) (scanner : Scanner) :
    scanner.kernelFor item = scanner.kernelFor other := by
  rw [kernelFor, kernelFor, WorkItem.pow_eq_of_template h]

theorem pow_of_kernelFor {kernel : Kernel} (h : scanner.kernelFor item = some kernel) :
    item.pow = kernel.pow := by
  unfold kernelFor at h
  split at h
  · rename_i hpow
    cases h
    exact hpow
  · obtain ⟨-, hfilter⟩ := Option.filter_eq_some_iff.mp h
    exact (eq_of_beq hfilter).symm

theorem Built.exact (hbuilt : scanner.Built) {kernel : Kernel}
    (h : scanner.kernelFor item = some kernel) : kernel.Exact := by
  unfold kernelFor at h
  split at h
  · cases h
    trivial
  · obtain ⟨hkernel, -⟩ := Option.filter_eq_some_iff.mp h
    cases hbuilt with
    | ofAlgorithm processor algorithm => exact Algorithm.exact_of_kernel? hkernel
    | unavailable => cases hkernel

/-- What a scan comes to that has a kernel and nonces to try. -/
structure Scanned (item : WorkItem) (ceiling : Nat) (t : Transcript) (other : WorkItem)
    (report : Report) : Prop
    extends Covered item item.nextNonce other.nextNonce ceiling t report.ending where
  item_eq : other = (item.record (other.nextNonce - 1).toUInt32
    (item.lastCandidate item.hash (noncesBetween item.nextNonce other.nextNonce))).withNextNonce
      other.nextNonce
  shares_eq : report.shares = takenIn t
  processed_eq : report.processed =
    if (offersIn t).isEmpty ∧ other.nextNonce = item.nextNonce + 1 then 0
    else other.nextNonce - item.nextNonce

/-- A scan with a kernel and with nonces to try is a search. -/
theorem exists_runs_of_trace {kernel : Kernel} (hkernel : scanner.kernelFor item = some kernel)
    (hlt : item.nextNonce < min ceiling UInt32.size)
    (htrace : Routine.Trace (scanner.scan item ceiling) t (other, report)) :
    ∃ stop, Runs kernel (min ceiling UInt32.size - 1).toUInt32 item 0 false item.nextNonce.toUInt32
        t stop ∧
      other = stop.item.withNextNonce (stop.last.toNat + 1) ∧
        report = ⟨if !stop.foundAny && stop.last.toNat == item.nextNonce then 0
          else stop.last.toNat - item.nextNonce + 1, stop.ending, stop.shares⟩ := by
  unfold scan at htrace
  rw [hkernel] at htrace
  dsimp only at htrace
  rw [dif_pos hlt] at htrace
  obtain ⟨t₁, t₂, stop, rfl, hsearch, hdone⟩ := Routine.trace_bind_iff.mp htrace
  obtain ⟨rfl, hresult⟩ := Routine.trace_done_iff.mp hdone
  obtain ⟨rfl, rfl⟩ := Prod.mk.inj hresult
  rw [List.append_nil]
  exact ⟨stop, runs_of_trace hsearch, rfl, rfl⟩

/-- The first nonce of a scan and its last one, as words. -/
theorem toNat_bounds {first ceiling : Nat} (hlt : first < min ceiling UInt32.size) :
    first.toUInt32.toNat = first ∧
      (min ceiling UInt32.size - 1).toUInt32.toNat + 1 = min ceiling UInt32.size := by
  rw [Nat.toUInt32_eq, UInt32.toNat_ofNat_of_lt' (by omega), Nat.toUInt32_eq,
    UInt32.toNat_ofNat_of_lt' (by omega)]
  omega

theorem scanned_scan {kernel : Kernel} (hkernel : scanner.kernelFor item = some kernel)
    (hexact : kernel.Exact) (hconsistent : item.Consistent)
    (hlt : item.nextNonce < min ceiling UInt32.size)
    (htrace : Routine.Trace (scanner.scan item ceiling) t (other, report)) :
    Scanned item (min ceiling UInt32.size) t other report := by
  obtain ⟨stop, hruns, rfl, rfl⟩ := exists_runs_of_trace hkernel hlt htrace
  have hsearched := searched_of_runs hexact (pow_of_kernelFor hkernel) hconsistent hruns
  obtain ⟨hfirst, hmax⟩ := toNat_bounds hlt
  have hcovered := hsearched.toCovered
  have hitem := hsearched.item_eq
  have hpassed := hcovered.lt_finish
  rw [hfirst] at hcovered hitem hpassed
  rw [hmax] at hcovered
  exact {
    hcovered with
    item_eq := by
      have hlast : (stop.last.toNat + 1 - 1).toUInt32 = stop.last := by simp
      rw [hitem]
      simp only [WorkItem.withNextNonce, hlast]
    shares_eq := hsearched.shares_eq.trans (Nat.zero_add _)
    processed_eq := by
      have hidle : (!stop.foundAny && stop.last.toNat == item.nextNonce) = true ↔
          (offersIn t).isEmpty ∧ stop.last.toNat + 1 = item.nextNonce + 1 := by
        simp [hsearched.foundAny_eq]
      by_cases h : (offersIn t).isEmpty ∧ stop.last.toNat + 1 = item.nextNonce + 1
      · exact (if_pos (hidle.mpr h)).trans (if_pos h).symm
      · have hsub : stop.last.toNat - item.nextNonce + 1 = stop.last.toNat + 1 - item.nextNonce := by
          omega
        exact (if_neg (mt hidle.mp h)).trans (hsub.trans (if_neg h).symm) }

/-- A scan without a kernel, or with no nonce left below its ceiling. -/
theorem trace_scan_of_idle
    (hidle : scanner.kernelFor item = none ∨ min ceiling UInt32.size ≤ item.nextNonce)
    (htrace : Routine.Trace (scanner.scan item ceiling) t (other, report)) :
    other = item ∧ report = .idle ∧ offersIn t = [] ∧
      ∀ e ∈ t, ∃ line answer, e = ⟨.note line, answer⟩ := by
  unfold scan at htrace
  split at htrace
  · obtain ⟨answer, t', rfl, hdone⟩ := Routine.trace_ask_iff.mp htrace
    obtain ⟨rfl, hresult⟩ := Routine.trace_done_iff.mp hdone
    obtain ⟨rfl, rfl⟩ := Prod.mk.inj hresult
    refine ⟨rfl, rfl, rfl, ?_⟩
    intro e hmem
    exact ⟨_, answer, List.mem_singleton.mp hmem⟩
  · rename_i kernel hkernel
    have hle : min ceiling UInt32.size ≤ item.nextNonce := by
      rcases hidle with hnone | hle
      · rw [hkernel] at hnone
        cases hnone
      · exact hle
    dsimp only at htrace
    rw [dif_neg (Nat.not_lt.mpr hle)] at htrace
    obtain ⟨rfl, hresult⟩ := Routine.trace_done_iff.mp htrace
    obtain ⟨rfl, rfl⟩ := Prod.mk.inj hresult
    exact ⟨rfl, rfl, rfl, fun e hmem ↦ absurd hmem List.not_mem_nil⟩

theorem template_scan (htrace : Routine.Trace (scanner.scan item ceiling) t (other, report)) :
    other.template = item.template := by
  cases hkernel : scanner.kernelFor item with
  | none => rw [(trace_scan_of_idle (.inl hkernel) htrace).1]
  | some kernel =>
    by_cases hlt : item.nextNonce < min ceiling UInt32.size
    · obtain ⟨stop, hruns, rfl, -⟩ := exists_runs_of_trace hkernel hlt htrace
      rw [WorkItem.template_withNextNonce, (stop_of_runs hruns).1]
    · rw [(trace_scan_of_idle (.inr (Nat.le_of_not_lt hlt)) htrace).1]

section Lines

theorem level_ne_error_of_submit {share : Share} {result : Option Nat}
    (h : Routine.Trace (submit item share) t result) : ∀ line ∈ linesIn t, line.level ≠ .error := by
  unfold submit at h
  split at h
  · obtain ⟨answer, t₁, rfl, hoffer⟩ := Routine.trace_ask_iff.mp h
    obtain ⟨taken, t₂, rfl, hdone⟩ := Routine.trace_ask_iff.mp hoffer
    obtain ⟨rfl, -⟩ := Routine.trace_done_iff.mp hdone
    exact List.forall_mem_singleton.mpr nofun
  · obtain ⟨answer, t₁, rfl, hdone⟩ := Routine.trace_ask_iff.mp h
    obtain ⟨rfl, -⟩ := Routine.trace_done_iff.mp hdone
    exact List.forall_mem_singleton.mpr nofun

theorem level_ne_error_of_runs {kernel : Kernel} {max nonce : Word} {shares : Nat} {foundAny : Bool}
    {stop : Stop} (h : Runs kernel max item shares foundAny nonce t stop) :
    ∀ line ∈ linesIn t, line.level ≠ .error := by
  induction h with
  | missed => simp
  | refused run hrun hfound hsubmit | exhausted run hrun hfound hsubmit
  | cancelled run hrun hfound hsubmit =>
    simpa using level_ne_error_of_submit hsubmit
  | continued run hrun hfound hsubmit hlt hrest ih =>
    simpa [or_imp, forall_and] using ⟨level_ne_error_of_submit hsubmit, ih⟩

/-- The one error that a scan reports is that there is no kernel. -/
theorem level_ne_error_of_trace {kernel : Kernel} (hkernel : scanner.kernelFor item = some kernel)
    (htrace : Routine.Trace (scanner.scan item ceiling) t (other, report)) :
    ∀ line ∈ linesIn t, line.level ≠ .error := by
  by_cases hlt : item.nextNonce < min ceiling UInt32.size
  · obtain ⟨stop, hruns, -⟩ := exists_runs_of_trace hkernel hlt htrace
    exact level_ne_error_of_runs hruns
  · unfold scan at htrace
    rw [hkernel] at htrace
    dsimp only at htrace
    rw [dif_neg hlt] at htrace
    obtain ⟨rfl, -⟩ := Routine.trace_done_iff.mp htrace
    exact List.forall_mem_nil _

end Lines

end Hashwork.Scanner
