import Hashwork.Proofs.Mining.Books
import Hashwork.Proofs.Mining.Coverage

/-!
# What mining returns

Mining returns what the scans of all workers have reported, however their additions to the tally and the
collector's looks at it follow each other.  These are the nonces that were passed, except that a scan of a
single nonce counts only if the nonce is accepted.
-/

namespace Hashwork.Mining

/-! ## The books balance -/

/-- What holds of a shift and its books whenever they are looked at. -/
structure Balanced (job : Job) (a : Audit) : Prop where
  added_lt : ∀ entry ∈ a.books.added, entry.1 < job.miner.threads
  tally_eq : a.shift.crew.tally + a.books.taken.sum = (a.books.added.map (·.2)).sum
  accounts : Accounts job a.shift a.books
  cash : Collector.Cash job a.shift.crew a.books.taken a.books.speeds a.shift.crew.collector

section Runs

variable {job : Job} {a : Audit}

theorem Balanced.open (job : Job) (flag : Bool) (now : Instant) : Balanced job (job.audit flag now) where
  added_lt := List.forall_mem_nil _
  tally_eq := rfl
  accounts _ _ := .working (WorkItem.template_withNextNonce _) rfl .refl rfl
  cash := .beginning

theorem Balanced.worker (h : Balanced job a) (hserved : job.Served) (i : Nat) :
    Balanced job (a.step job (.worker i)) := by
  have hmove := move_step job a.shift (.worker i)
  have haccounts := h.accounts.worker hmove hserved
  have hcash : Collector.Cash job (a.shift.step job (.worker i)).crew a.books.taken a.books.speeds
      (a.shift.step job (.worker i)).crew.collector := by
    rw [hmove.collector_eq]
    refine h.cash.mono fun hended ↦ ?_
    rw [step_worker_of_allEnded hended]
    exact ⟨hended, rfl⟩
  by_cases hasking : Asking job a.shift.crew i
  · obtain ⟨hi, e, next, hworker⟩ := hasking
    have hstep : a.books.record job a.shift.crew (.worker i) = a.books.add i e.tallies ∧
        (a.shift.crew.step job (.worker i)).tally = a.shift.crew.tally + e.tallies.sum :=
      step_asking hi hworker
    rw [hstep.1] at haccounts
    rw [Audit.step, hstep.1]
    refine ⟨?_, ?_, haccounts, hcash⟩
    · apply List.forall_mem_append.mpr ⟨h.added_lt, ?_⟩
      intro entry hmem
      obtain ⟨nonces, -, rfl⟩ := List.mem_map.mp hmem
      exact hi
    · have hadded : ((a.books.add i e.tallies).added.map (·.2)).sum =
          (a.books.added.map (·.2)).sum + e.tallies.sum := by
        simp [Books.add, Function.comp_def]
      have hbefore := h.tally_eq
      rw [hadded, ← hbefore]
      calc
        _ = a.shift.crew.tally + e.tallies.sum + a.books.taken.sum :=
          congrArg (· + a.books.taken.sum) hstep.2
        _ = _ := Nat.add_right_comm _ _ _
  · have hstep : a.books.record job a.shift.crew (.worker i) = a.books ∧
        (a.shift.crew.step job (.worker i)).tally = a.shift.crew.tally :=
      step_not_asking hasking
    rw [hstep.1] at haccounts
    rw [Audit.step, hstep.1]
    exact ⟨h.added_lt, (congrArg (· + a.books.taken.sum) hstep.2).trans h.tally_eq, haccounts, hcash⟩

theorem Balanced.collector (h : Balanced job a) : Balanced job (a.step job .collector) := by
  have hadded : (a.step job .collector).books.added = a.books.added :=
    @added_record_collector job _ _
  refine ⟨hadded.symm ▸ h.added_lt, ?_, ?_, h.cash.step⟩
  · rw [hadded]
    exact tally_step_collector.trans h.tally_eq
  · intro i hi
    have haccount := h.accounts i hi
    rw [← (step_collector job a.shift.crew).1] at haccount
    rw [hadded]
    exact haccount

theorem Balanced.step (h : Balanced job a) (hserved : job.Served) (action : Crew.Action) :
    Balanced job (a.step job action) := by
  cases action with
  | worker i => exact h.worker hserved i
  | collector => exact h.collector
  | tick d =>
    obtain ⟨now, htick⟩ := exists_step_tick job a.shift d
    rw [Audit.step, htick]
    exact ⟨h.added_lt, h.tally_eq, h.accounts, h.cash.mono fun hended ↦ ⟨hended, rfl⟩⟩
  | cancel => exact ⟨h.added_lt, h.tally_eq, h.accounts, h.cash.mono fun hended ↦ ⟨hended, rfl⟩⟩

theorem balanced (hserved : job.Served) (flag : Bool) (now : Instant) (actions : List Crew.Action) :
    Balanced job ((job.audit flag now).run job actions) := by
  induction actions using List.reverseRecOn with
  | nil => exact .open job flag now
  | append_singleton actions action ih =>
    rw [Audit.run_concat]
    exact ih.step hserved action

end Runs

/-! ## Summing up -/

section Sums

variable {α : Type} {workers : Nat}

/-- A sum over all entries, taken worker by worker. -/
theorem sum_map_eq_sum_range {entries : List (Nat × α)} (h : ∀ entry ∈ entries, entry.1 < workers)
    (f : α → Nat) {ofEach : Nat → Nat}
    (hworker : ∀ i < workers, ((ofWorker i entries).map f).sum = ofEach i) :
    ((entries.map (·.2)).map f).sum = ((List.range workers).map ofEach).sum := by
  rw [← ((perm_flatMap_ofWorker h).map f).sum_nat, List.map_flatMap, List.flatMap, List.sum_flatten,
    List.map_map]
  apply congrArg List.sum
  apply List.map_congr_left
  intro i hmem
  exact hworker i (List.mem_range.mp hmem)

theorem lengthOf_portions (h : 0 < workers) :
    lengthOf ((List.range workers).map (portion workers)) = UInt32.size := by
  have hbelow (m : Nat) (hm : m < workers) :
      lengthOf ((List.range m).map (portion workers)) = (portion workers m).first := by
    induction m with
    | zero => rw [portion_first, Nat.zero_mul]; rfl
    | succ m ih =>
      have hle := portion_first_le_finish (Nat.lt_of_succ_lt hm)
      rw [List.range_succ, List.map_append, List.map_singleton, lengthOf_concat,
        ih (Nat.lt_of_succ_lt hm), Portion.length, Nat.add_sub_cancel' hle, portion_finish_of_lt hm]
  obtain ⟨m, rfl⟩ := Nat.exists_eq_add_of_le' h
  have hle := portion_first_le_finish (Nat.lt_succ_self m)
  rw [List.range_succ, List.map_append, List.map_singleton, lengthOf_concat,
    hbelow m (Nat.lt_succ_self m), Portion.length, Nat.add_sub_cancel' hle, portion_finish_of_last rfl]

/-- A number that is not too large gets through a conversion. -/
theorem Books.Told.taken_eq {taken : List Nat} {speeds : List HashRate} (h : Told taken speeds)
    (hlt : ∀ nonces ∈ taken, nonces < UInt64.size) : taken = speeds.map (·.hashes.toNat) := by
  have hback : (speeds.map (·.hashes)).map UInt64.toNat = taken := by
    rw [h, List.map_map]
    apply (List.map_congr_left fun nonces hmem ↦ ?_).trans (List.map_id _)
    exact UInt64.toNat_ofNat_of_lt' (hlt nonces hmem)
  rw [← hback, List.map_map]
  rfl

end Sums

/-! ## When the collector has ended -/

/-- What mining has returned. -/
structure Counted (job : Job) (a : Audit) (total : Nat) : Prop where
  /-- It is what the scans have passed, as far as it counts. -/
  total_eq : total = processedIn job.item (a.shift.ledger.passed.map (·.2))
  /-- It is also what was reported while mining, with what was left after the last report. -/
  reported : ∃ remainder, a.books.taken = a.books.speeds.map (·.hashes.toNat) ++ [remainder] ∧
    total = (a.books.speeds.map (·.hashes.toNat)).sum + remainder
  le_size : total ≤ UInt32.size
  /-- Unless the flag is raised, only the last nonces of portions may be missing. -/
  complete : a.shift.crew.flag = false →
    lengthOf (a.shift.ledger.passed.map (·.2)) = UInt32.size ∧
      total + ((List.range job.miner.threads).map fun i ↦ (job.portion i).uncounted job.item).sum =
        UInt32.size

/-- The audit after so many actions of a schedule. -/
def Job.auditTo (job : Job) (flag : Bool) (now : Instant) (schedule : Nat → Crew.Action) (n : Nat) : Audit :=
  (job.audit flag now).run job ((List.range n).map schedule)

section Ends

variable {job : Job} {a : Audit} {s : Shift} {total : Nat}

theorem Job.audit_shift (job : Job) (flag : Bool) (now : Instant) (actions : List Crew.Action) :
    ((job.audit flag now).run job actions).shift = (job.open flag now).run job actions :=
  Audit.run_shift job _ actions

theorem Collector.Cash.of_total? {crew : Crew} {taken : List Nat} {speeds : List HashRate}
    (h : Cash job crew taken speeds crew.collector) (htotal : crew.total? = some total) :
    job.allEnded crew = true ∧ crew.tally = 0 ∧ taken.sum = total ∧
      ∃ earlier remainder, taken = earlier ++ [remainder] ∧ Books.Told earlier speeds := by
  unfold Crew.total? at htotal
  generalize crew.collector = collector at h htotal
  cases h with
  | ended remainder htold hended htally =>
    refine ⟨hended, htally, ?_, _, remainder, rfl, htold⟩
    rw [List.sum_append, List.sum_singleton]
    exact Option.some.inj htotal
  | _ => cases htotal

/-- All that was added has been taken, and all that was passed has been added. -/
theorem Balanced.total_eq (h : Balanced job a) (hkept : Kept job a.shift)
    (htotal : a.shift.crew.total? = some total) :
    total = processedIn job.item (a.shift.ledger.passed.map (·.2)) := by
  obtain ⟨hended, htally, hsum, -⟩ := h.cash.of_total? htotal
  have hworker (i : Nat) (hi : i < job.miner.threads) :
      ((ofWorker i a.books.added).map id).sum =
        processedIn job.item (ofWorker i a.shift.ledger.passed) := by
    have haccount := h.accounts i hi
    obtain ⟨item, hworker⟩ := allEnded_iff.mp hended i hi
    rw [hworker] at haccount
    rw [List.map_id]
    cases haccount with
    | ended hadded => exact hadded
  calc
    total = ((a.books.added.map (·.2)).map id).sum := by
      rw [List.map_id, ← h.tally_eq, htally, Nat.zero_add, hsum]
    _ = ((List.range job.miner.threads).map fun i ↦
        processedIn job.item (ofWorker i a.shift.ledger.passed)).sum :=
      sum_map_eq_sum_range h.added_lt id hworker
    _ = processedIn job.item (a.shift.ledger.passed.map (·.2)) :=
      (sum_map_eq_sum_range hkept.passed_lt _ fun _ _ ↦ rfl).symm

/-- How far the workers have got, all together. -/
theorem Kept.lengthOf_passed (h : Kept job s) :
    lengthOf (s.ledger.passed.map (·.2)) =
      ((List.range job.miner.threads).map fun i ↦ s.ledger.reached i - (job.portion i).first).sum := by
  apply sum_map_eq_sum_range h.passed_lt
  intro i hi
  exact (h.duty i hi).walked.lengthOf_eq (portion_first_le_finish hi)

theorem Kept.lengthOf_passed_le (h : Kept job s) (hthreads : 0 < job.miner.threads) :
    lengthOf (s.ledger.passed.map (·.2)) ≤ UInt32.size := by
  rw [h.lengthOf_passed, ← lengthOf_portions hthreads, lengthOf, List.map_map]
  apply List.sum_le_sum
  intro i hmem
  exact Nat.sub_le_sub_right (h.reached_le (List.mem_range.mp hmem)) _

theorem Kept.processedIn_add_uncounted (h : Kept job s) (hended : job.allEnded s.crew = true)
    (hflag : s.crew.flag = false) :
    processedIn job.item (s.ledger.passed.map (·.2)) +
        ((List.range job.miner.threads).map fun i ↦ (job.portion i).uncounted job.item).sum =
      lengthOf (s.ledger.passed.map (·.2)) := by
  have hworker (i : Nat) (hi : i < job.miner.threads) :
      lengthOf (ofWorker i s.ledger.passed) =
        processedIn job.item (ofWorker i s.ledger.passed) + (job.portion i).uncounted job.item := by
    have hreached := (h.ended_eq hi (allEnded_iff.mp hended i hi) hflag).1
    exact ((h.duty i hi).walked.processedIn_add_uncounted hflag hreached job.item).symm
  have hprocessed : processedIn job.item (s.ledger.passed.map (·.2)) =
      ((List.range job.miner.threads).map fun i ↦
        processedIn job.item (ofWorker i s.ledger.passed)).sum :=
    sum_map_eq_sum_range h.passed_lt _ fun _ _ ↦ rfl
  rw [hprocessed, ← List.sum_map_add]
  exact (sum_map_eq_sum_range h.passed_lt _ hworker).symm

theorem Kept.lengthOf_passed_eq (h : Kept job s) (hthreads : 0 < job.miner.threads)
    (hended : job.allEnded s.crew = true) (hflag : s.crew.flag = false) :
    lengthOf (s.ledger.passed.map (·.2)) = UInt32.size := by
  rw [h.lengthOf_passed, ← lengthOf_portions hthreads, lengthOf, List.map_map]
  apply congrArg List.sum
  apply List.map_congr_left
  intro i hmem
  have hi := List.mem_range.mp hmem
  rw [(h.ended_eq hi (allEnded_iff.mp hended i hi) hflag).1]
  rfl

theorem Balanced.counted (h : Balanced job a) (hkept : Kept job a.shift) (hthreads : 0 < job.miner.threads)
    (htotal : a.shift.crew.total? = some total) : Counted job a total := by
  obtain ⟨hended, -, hsum, earlier, remainder, htaken, htold⟩ := h.cash.of_total? htotal
  have hpassed := h.total_eq hkept htotal
  have hle : total ≤ UInt32.size := by
    calc
      total ≤ lengthOf (a.shift.ledger.passed.map (·.2)) := hpassed.trans_le (processedIn_le_lengthOf _ _)
      _ ≤ UInt32.size := hkept.lengthOf_passed_le hthreads
  refine ⟨hpassed, ⟨remainder, ?_⟩, hle, fun hflag ↦ ?_⟩
  · have hfits (nonces : Nat) (hmem : nonces ∈ earlier) : nonces < UInt64.size := by
      have hmem' : nonces ∈ a.books.taken := htaken ▸ List.mem_append_left _ hmem
      have hone : nonces ≤ total := hsum ▸ List.le_sum_of_mem hmem'
      exact (hone.trans hle).trans_lt (by decide)
    have hearlier := htold.taken_eq hfits
    rw [← hearlier, ← hsum, htaken, List.sum_append, List.sum_singleton]
    exact ⟨rfl, rfl⟩
  · have hlength := hkept.lengthOf_passed_eq hthreads hended hflag
    exact ⟨hlength, hpassed ▸ (hkept.processedIn_add_uncounted hended hflag).trans hlength⟩

theorem counted (hthreads : 0 < job.miner.threads) (hserved : job.Served) {flag : Bool} {now : Instant}
    {actions : List Crew.Action}
    (htotal : ((job.audit flag now).run job actions).shift.crew.total? = some total) :
    Counted job ((job.audit flag now).run job actions) total := by
  have hkept := kept hserved flag now actions
  rw [← job.audit_shift] at hkept
  exact (balanced hserved flag now actions).counted hkept hthreads htotal

theorem exists_total (hserved : job.Served) (flag : Bool) (now : Instant) {schedule : Nat → Crew.Action}
    (hfair : Fair job schedule) :
    ∃ n total, (job.auditTo flag now schedule n).shift.crew.total? = some total := by
  have hcourse : Course job schedule (job.runTo flag now schedule) :=
    ⟨hfair, runTo_succ job flag now schedule, fun n ↦ kept hserved flag now _⟩
  obtain ⟨n, hended⟩ := hcourse.exists_total hserved
  obtain ⟨total, htotal⟩ := Option.isSome_iff_exists.mp hended
  refine ⟨n, total, ?_⟩
  rw [Job.auditTo, job.audit_shift]
  exact htotal

end Ends

/-- Mining returns what its scans have passed, as far as it counts, whatever the number of workers, the
interleaving and the moment at which the flag is raised, and it returns if everyone gets turns. -/
theorem returns_processed (job : Job) (hthreads : 0 < job.miner.threads) (hreachable : job.item.Reachable)
    (hbuilt : job.miner.scanner.Built) (hkernel : (job.miner.scanner.kernelFor job.item).isSome = true)
    (flag : Bool) (now : Instant) :
    (∀ actions,
      ((job.audit flag now).run job actions).shift.crew = (job.start flag now).run job actions) ∧
      (∀ actions total, ((job.audit flag now).run job actions).shift.crew.total? = some total →
        Counted job ((job.audit flag now).run job actions) total) ∧
        (∀ actions, job.deadline = none → .cancel ∉ actions →
          ((job.audit flag now).run job actions).shift.crew.flag = flag) ∧
          ∀ schedule, Fair job schedule →
            ∃ n total, (job.auditTo flag now schedule n).shift.crew.total? = some total := by
  have hserved := Job.served hreachable hbuilt hkernel
  refine ⟨fun actions ↦ ?_, fun actions total ↦ counted hthreads hserved,
    fun actions hdeadline hcancel ↦ ?_, fun schedule ↦ exists_total hserved flag now⟩
  · rw [job.audit_shift]
    exact Shift.run_crew job _ actions
  · rw [job.audit_shift]
    exact flag_run job flag now hdeadline actions hcancel

theorem exists_total_threeWorkers :
    ∃ n, (threeWorkers.auditTo false ⟨0⟩ (roundRobin 3) n).shift.crew.total? = some UInt32.size := by
  obtain ⟨-, hcounted, hflag, hends⟩ :=
    returns_processed threeWorkers (by decide) (.ofHeader _ _ _) (.ofAlgorithm _ _) rfl false ⟨0⟩
  obtain ⟨n, total, htotal⟩ := hends (roundRobin 3) (fair_roundRobin threeWorkers)
  have hlowered := hflag _ rfl (cancel_notMem_roundRobin 3 n)
  -- No portion ends with a piece of a single nonce.
  have hnone : ∀ i < 3, (threeWorkers.portion i).uncounted threeWorkers.item = 0 := by
    have hlengths : ∀ i < 3, (portion 3 i).length % pieceLength ≠ 1 := by decide
    intro i hi
    exact if_neg fun hone ↦ hlengths i hi hone.1
  have hsum : ((List.range 3).map fun i ↦ (threeWorkers.portion i).uncounted threeWorkers.item).sum = 0 := by
    apply List.sum_eq_zero
    intro uncounted hmem
    obtain ⟨i, hi, rfl⟩ := List.mem_map.mp hmem
    exact hnone i (List.mem_range.mp hi)
  have hcomplete := ((hcounted _ total htotal).complete hlowered).2
  refine ⟨n, htotal.trans (congrArg some ?_)⟩
  exact (congrArg (total + ·) hsum).symm.trans hcomplete

/-- So many workers that each portion has one nonce more than a piece, and an item of which hardly any nonce
is accepted. -/
def shortPieces : Job where
  miner := ⟨65535, .ofAlgorithm ⟨fun _ ↦ false, 1⟩ .c⟩
  item := .ofHeader ⟨Vector.replicate 80 0⟩ ⟨Vector.replicate 32 0⟩ ⟨0⟩
  deadline := none

theorem not_accepts_shortPieces : shortPieces.item.accepts 65536 = false := by
  decide +kernel

theorem uncounted_shortPieces : (shortPieces.portion 0).uncounted shortPieces.item = 1 := by
  have hportion : shortPieces.portion 0 = ⟨0, 65537⟩ := by decide
  rw [hportion]
  exact if_pos ⟨by decide, not_accepts_shortPieces⟩

/-- Mining may return less than the number of nonces that its scans have passed, though nobody interrupts it. -/
theorem exists_total_lt_shortPieces :
    ∃ n total, (shortPieces.auditTo false ⟨0⟩ (roundRobin 65535) n).shift.crew.total? = some total ∧
      (shortPieces.auditTo false ⟨0⟩ (roundRobin 65535) n).shift.crew.flag = false ∧
      total < lengthOf
        ((shortPieces.auditTo false ⟨0⟩ (roundRobin 65535) n).shift.ledger.passed.map (·.2)) ∧
      total < UInt32.size := by
  have hserved : shortPieces.Served := Job.served (.ofHeader _ _ _) (.ofAlgorithm _ _) rfl
  have hfair : Fair shortPieces (roundRobin 65535) := fair_roundRobin shortPieces
  obtain ⟨n, total, htotal⟩ := exists_total hserved false ⟨0⟩ hfair
  have hlowered := flag_run shortPieces false ⟨0⟩ rfl _ (cancel_notMem_roundRobin 65535 n)
  rw [← shortPieces.audit_shift] at hlowered
  obtain ⟨hlength, hcomplete⟩ := (counted (by decide) hserved htotal).complete hlowered
  have hlost : 1 ≤ ((List.range 65535).map fun i ↦
      (shortPieces.portion i).uncounted shortPieces.item).sum := by
    have hmem : (shortPieces.portion 0).uncounted shortPieces.item ∈ (List.range 65535).map fun i ↦
        (shortPieces.portion i).uncounted shortPieces.item :=
      List.mem_map.mpr ⟨0, List.mem_range.mpr (by decide), rfl⟩
    exact uncounted_shortPieces ▸ List.le_sum_of_mem hmem
  have hlt : total < UInt32.size := by
    calc
      total < total + 1 := Nat.lt_succ_self total
      _ ≤ total + _ := Nat.add_le_add_left hlost total
      _ = UInt32.size := hcomplete
  exact ⟨n, total, htotal, hlowered, hlength.symm ▸ hlt, hlt⟩

end Hashwork.Mining
