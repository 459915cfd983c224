import Hashwork.Proofs.Mining.Completion

/-!
# All nonces, each once

The portions divide the nonces, and the pieces divide each portion.  Whatever the interleaving, no nonce is
scanned twice, and what is reported are accepted shares, none twice and in the end all that were sent.  If
nobody raises the flag, these are the accepted shares of all nonces.
-/

namespace Hashwork.Mining

/-- The nonces are divided among the workers, and each portion into pieces. -/
structure Divided (workers : Nat) : Prop where
  portions : ∀ n, n < UInt32.size ↔ ∃ i < workers, (portion workers i).Has n
  portions_unique : ∀ i < workers, ∀ j < workers, ∀ n, (portion workers i).Has n →
    (portion workers j).Has n → i = j
  pieces : ∀ (p : Portion) (n : Nat), p.Has n ↔ ∃ k, (p.piece k).Has n
  pieces_unique : ∀ (p : Portion) (k l n : Nat), (p.piece k).Has n → (p.piece l).Has n → k = l

theorem divided {workers : Nat} (h : 0 < workers) : Divided workers where
  portions n := by
    constructor
    · exact exists_portion h
    · rintro ⟨i, hi, hn⟩
      exact hn.2.trans_le (portion_finish_le hi)
  portions_unique _ hi _ hj _ := portion_disjoint hi hj
  pieces p n := ⟨exists_piece, fun ⟨_, hn⟩ ↦ piece_has hn⟩
  pieces_unique _ _ _ _ := piece_disjoint

/-- What can be relied on after any number of steps. -/
structure Mined (job : Job) (s : Shift) : Prop where
  /-- Each worker has been through its pieces in order, of which none was empty. -/
  walked : ∀ i < job.miner.threads,
    Walked (job.portion i) s.crew.flag (ofWorker i s.ledger.passed) (s.ledger.reached i)
  passed : ∀ entry ∈ s.ledger.passed, entry.1 < job.miner.threads ∧ entry.2.first < entry.2.finish
  /-- No nonce has been passed twice, by one worker or by two. -/
  apart : s.ledger.passed.Pairwise fun earlier later ↦ ∀ n, ¬ (earlier.2.Has n ∧ later.2.Has n)
  /-- A worker sends the accepted shares of its portion in order. -/
  sent : ∀ i < job.miner.threads, ofWorker i s.ledger.sent <+:
    job.item.acceptedShares (job.portion i).first (job.portion i).finish
  accepted : ∀ share ∈ s.crew.reported, ∃ nonce,
    job.item.accepts nonce = true ∧ share = job.item.shareAt nonce
  nodup : (s.crew.reported.map (·.nonce)).Nodup
  delivered : s.crew.total?.isSome = true → s.crew.reported.reverse = s.ledger.sent.map (·.2)
  /-- Unless the flag is raised, all nonces have been passed in the end, and all accepted shares reported. -/
  complete : s.crew.total?.isSome = true → s.crew.flag = false →
    (∀ n < UInt32.size, ∃ entry ∈ s.ledger.passed, entry.2.Has n) ∧
      s.crew.reported.Perm (job.item.acceptedShares 0 UInt32.size)

def Job.runTo (job : Job) (flag : Bool) (now : Instant) (schedule : Nat → Crew.Action) (n : Nat) : Shift :=
  (job.open flag now).run job ((List.range n).map schedule)

theorem runTo_succ (job : Job) (flag : Bool) (now : Instant) (schedule : Nat → Crew.Action) (n : Nat) :
    job.runTo flag now schedule (n + 1) = (job.runTo flag now schedule n).step job (schedule n) := by
  simp only [Job.runTo, List.range_succ, List.map_append, List.map_singleton, Shift.run_concat]

section Runs

variable {job : Job} {s : Shift} {held : List Share}

theorem Delivered.reported_subperm (h : Delivered job s held) (hkept : Kept job s)
    (hthreads : 0 < job.miner.threads) (hserved : job.Served) :
    s.crew.reported.Subperm (job.item.acceptedShares 0 UInt32.size) := by
  apply (List.reverse_perm _).symm.subperm.trans
  apply h.reported_starts.sublist.subperm.trans
  exact hkept.sent_subperm hthreads hserved

theorem nodup_nonces_of_subperm {item : WorkItem} {shares : List Share}
    (h : shares.Subperm (item.acceptedShares 0 UInt32.size)) : (shares.map (·.nonce)).Nodup := by
  have hnonces : ((item.acceptedShares 0 UInt32.size).map (·.nonce)).Pairwise (· < ·) :=
    List.pairwise_map.mpr (WorkItem.acceptedShares_pairwise (Nat.le_refl _))
  obtain ⟨_, hperm, hsublist⟩ := h
  apply (hperm.map _).nodup_iff.mp
  exact hnonces.nodup.sublist (hsublist.map _)

theorem mined (hthreads : 0 < job.miner.threads) (hserved : job.Served) (hkept : Kept job s)
    (h : Delivered job s held) : Mined job s := by
  have hsubperm := h.reported_subperm hkept hthreads hserved
  refine {
    walked := ?_, passed := ?_, apart := hkept.apart, sent := ?_, accepted := ?_, nodup := ?_,
    delivered := ?_, complete := ?_ }
  · intro i hi
    exact (hkept.duty i hi).walked
  · intro entry hmem
    exact ⟨hkept.passed_lt entry hmem, hkept.passed_some entry hmem⟩
  · intro i hi
    exact (hkept.duty i hi).sent_starts hi hserved
  · intro share hmem
    obtain ⟨n, -, -, haccepted, rfl⟩ := WorkItem.mem_acceptedShares.mp (hsubperm.subset hmem)
    exact ⟨n.toUInt32, haccepted, rfl⟩
  · exact nodup_nonces_of_subperm hsubperm
  · intro htotal
    exact (h.of_total? htotal).2
  · intro htotal hflag
    obtain ⟨hclosed, hreported⟩ := h.of_total? htotal
    constructor
    · intro n hn
      obtain ⟨i, hi, hhas⟩ := exists_portion hthreads hn
      have hreached := (hkept.ended_eq hi (allEnded_iff.mp hclosed.allEnded i hi) hflag).1
      have hwalked := (hkept.duty i hi).walked
      obtain ⟨stretch, hmem, hstretch⟩ := hwalked.exists_has hhas (hreached ▸ hhas.2)
      exact ⟨(i, stretch), mem_ofWorker.mp hmem, hstretch⟩
    · apply (List.reverse_perm _).symm.trans
      rw [hreported]
      exact hkept.sent_perm hthreads hclosed.allEnded hflag

/-- Mining covers all nonces, each once, whatever the number of workers and the interleaving, and it comes to
an end if everyone gets turns. -/
theorem covers_all_nonces (job : Job) (hthreads : 0 < job.miner.threads) (hreachable : job.item.Reachable)
    (hbuilt : job.miner.scanner.Built) (hkernel : (job.miner.scanner.kernelFor job.item).isSome = true)
    (flag : Bool) (now : Instant) :
    Divided job.miner.threads ∧
      (∀ actions,
        ((job.open flag now).run job actions).crew = (job.start flag now).run job actions ∧
          Mined job ((job.open flag now).run job actions)) ∧
        (∀ actions, job.deadline = none → .cancel ∉ actions →
          ((job.open flag now).run job actions).crew.flag = flag) ∧
          ∀ schedule, Fair job schedule →
            ∃ n, (job.runTo flag now schedule n).crew.total?.isSome = true := by
  have hserved := Job.served hreachable hbuilt hkernel
  have hkept := kept hserved flag now
  refine ⟨divided hthreads, fun actions ↦ ?_, fun actions hdeadline ↦ ?_, fun schedule hfair ↦ ?_⟩
  · obtain ⟨held, hdelivered⟩ := exists_delivered job flag now actions
    exact ⟨Shift.run_crew job _ actions, mined hthreads hserved (hkept actions) hdelivered⟩
  · exact flag_run job flag now hdeadline actions
  · have hcourse : Course job schedule (job.runTo flag now schedule) :=
      ⟨hfair, runTo_succ job flag now schedule, fun n ↦ hkept _⟩
    exact hcourse.exists_total hserved

/-- The workers in turns, and then the collector. -/
def roundRobin (workers n : Nat) : Crew.Action :=
  if n % (workers + 1) < workers then .worker (n % (workers + 1)) else .collector

theorem roundRobin_mul_add {workers i : Nat} (n : Nat) (hi : i ≤ workers) :
    roundRobin workers (n * (workers + 1) + i) = if i < workers then .worker i else .collector := by
  rw [roundRobin, Nat.mul_add_mod_of_lt (Nat.lt_succ_of_le hi)]

theorem fair_roundRobin (job : Job) : Fair job (roundRobin job.miner.threads) := by
  have hlater (n i : Nat) : n ≤ n * (job.miner.threads + 1) + i :=
    (Nat.le_mul_of_pos_right n (Nat.succ_pos _)).trans (Nat.le_add_right _ _)
  constructor
  · intro i hi n
    exact ⟨_, hlater n i, (roundRobin_mul_add n hi.le).trans (if_pos hi)⟩
  · intro n
    exact ⟨_, hlater n _, (roundRobin_mul_add n (Nat.le_refl _)).trans (if_neg (Nat.lt_irrefl _))⟩

theorem cancel_notMem_roundRobin (workers n : Nat) :
    .cancel ∉ (List.range n).map (roundRobin workers) := by
  intro hmem
  obtain ⟨m, -, heq⟩ := List.mem_map.mp hmem
  unfold roundRobin at heq
  split at heq <;> cases heq

/-- Three workers and an item of which every nonce is accepted. -/
def threeWorkers : Job where
  miner := ⟨3, .ofAlgorithm ⟨fun _ ↦ false, 1⟩ .c⟩
  item := .ofHeader ⟨Vector.replicate 80 0⟩ .max ⟨0⟩
  deadline := none

theorem exists_reported_threeWorkers :
    ∃ n, (threeWorkers.runTo false ⟨0⟩ (roundRobin 3) n).crew.total?.isSome = true ∧
      (threeWorkers.runTo false ⟨0⟩ (roundRobin 3) n).crew.reported.Perm
        (threeWorkers.item.acceptedShares 0 UInt32.size) := by
  obtain ⟨-, hmined, hflag, hends⟩ :=
    covers_all_nonces threeWorkers (by decide) (.ofHeader _ _ _) (.ofAlgorithm _ _) rfl false ⟨0⟩
  obtain ⟨n, htotal⟩ := hends (roundRobin 3) (fair_roundRobin threeWorkers)
  have hlowered := hflag _ rfl (cancel_notMem_roundRobin 3 n)
  exact ⟨n, htotal, ((hmined _).2.complete htotal hlowered).2⟩

end Runs

end Hashwork.Mining
