import Hashwork.Proofs.Mining.Duty
import Mathlib.Data.List.Flatten
import Mathlib.Data.List.Induction

/-!
# All workers together

The nonces that turns have passed never overlap, whichever workers they belong to.  The shares that have
been sent are among the accepted ones, each once.
-/

namespace Hashwork.Mining

/-- What holds of a shift whenever it is looked at. -/
structure Kept (job : Job) (s : Shift) : Prop where
  duty : ∀ i < job.miner.threads, Duty job i s.crew.flag (ofWorker i s.ledger.passed)
    (ofWorker i s.ledger.sent) (s.ledger.reached i) (s.crew.workers i)
  passed_lt : ∀ entry ∈ s.ledger.passed, entry.1 < job.miner.threads
  passed_some : ∀ entry ∈ s.ledger.passed, entry.2.first < entry.2.finish
  sent_lt : ∀ entry ∈ s.ledger.sent, entry.1 < job.miner.threads
  apart : s.ledger.passed.Pairwise fun earlier later ↦ ∀ n, ¬ (earlier.2.Has n ∧ later.2.Has n)

section Runs

variable {job : Job} {s s' : Shift} {action : Crew.Action}

theorem Kept.open (job : Job) (flag : Bool) (now : Instant) : Kept job (job.open flag now) where
  duty i hi := by
    have hfirst : (job.portion i).first =
        min ((job.portion i).first + 0 * pieceLength) (job.portion i).finish := by
      rw [Nat.zero_mul, Nat.add_zero, Nat.min_eq_left (portion_first_le_finish hi)]
    have hnone : [] = job.item.acceptedShares (job.portion i).first (job.portion i).first ++ [] := by
      rw [job.item.acceptedShares_self, List.append_nil]
    exact .working 0 (WorkItem.template_withNextNonce _) rfl .refl .nil rfl hfirst hnone
  passed_lt := List.forall_mem_nil _
  passed_some := List.forall_mem_nil _
  sent_lt := List.forall_mem_nil _
  apart := .nil

theorem Kept.ask {i : Nat} {e : Worker.Event} {next : e.Answer → Worker.Working Worker.Turn}
    {answer : e.Answer} {tally : Nat} {log : List Log.Line} (h : Kept job s)
    (hi : i < job.miner.threads) (hworker : s.crew.workers i = .working (.ask e next))
    (hgiven : Worker.Given s.crew.flag e answer) :
    Kept job
      ⟨{ s.crew.setWorker i (.working (next answer)) with
          channel := s.crew.channel ++ e.shares, tally, log },
        { s.ledger with sent := s.ledger.sent ++ e.shares.map fun share ↦ (i, share) }⟩ where
  duty j hj := by
    have hduty := h.duty j hj
    by_cases hji : j = i
    · subst hji
      rw [hworker] at hduty
      rw [ofWorker_append, ofWorker_map_self]
      exact (setWorker_workers_self s.crew j _).symm ▸ hduty.ask hgiven
    · rw [ofWorker_append, ofWorker_map_of_ne hji, List.append_nil]
      exact (setWorker_workers_of_ne s.crew _ hji).symm ▸ hduty
  passed_lt := h.passed_lt
  passed_some := h.passed_some
  sent_lt := by
    apply List.forall_mem_append.mpr ⟨h.sent_lt, ?_⟩
    intro entry hmem
    obtain ⟨share, -, rfl⟩ := List.mem_map.mp hmem
    exact hi
  apart := h.apart

theorem Kept.within (h : Kept job s) {entry : Nat × Portion} (hmem : entry ∈ s.ledger.passed) :
    (job.portion entry.1).first ≤ entry.2.first ∧ entry.2.finish ≤ s.ledger.reached entry.1 :=
  (h.duty entry.1 (h.passed_lt entry hmem)).walked.within entry.2 (mem_ofWorker.mpr hmem)

theorem Kept.reached_le (h : Kept job s) {i : Nat} (hi : i < job.miner.threads) :
    s.ledger.reached i ≤ (job.portion i).finish :=
  (h.duty i hi).walked.le_finish

/-- What a worker passes now, no worker has passed before. -/
theorem Kept.not_has {i nonce : Nat} (h : Kept job s) (hi : i < job.miner.threads)
    (hfinish : nonce ≤ (job.portion i).finish) {entry : Nat × Portion} (hmem : entry ∈ s.ledger.passed)
    (n : Nat) : ¬ (entry.2.Has n ∧ Portion.Has ⟨s.ledger.reached i, nonce⟩ n) := by
  rintro ⟨⟨hfirst, hlt⟩, ⟨hreached, hlt'⟩⟩
  obtain ⟨hentry, hentry'⟩ := h.within hmem
  by_cases heq : entry.1 = i
  · rw [heq] at hentry'
    exact absurd (hlt.trans_le hentry') (Nat.not_lt.mpr hreached)
  · apply heq
    have hold := h.passed_lt entry hmem
    have hbegun := (h.duty i hi).walked.first_le (portion_first_le_finish hi)
    apply portion_disjoint hold hi
    · exact ⟨hentry.trans hfirst, hlt.trans_le (hentry'.trans (h.reached_le hold))⟩
    · exact ⟨hbegun.trans hreached, hlt'.trans_le hfinish⟩

theorem Kept.turn {i : Nat} {turn : Worker.Turn} (h : Kept job s) (hi : i < job.miner.threads)
    (hworker : s.crew.workers i = .working (.done turn)) (hserved : job.Served) :
    Kept job ⟨s.crew.setWorker i (job.after i turn), s.ledger.reach i turn.item.nextNonce⟩ := by
  have hturn := (hworker ▸ h.duty i hi).turn hi hserved
  refine { duty := ?_, passed_lt := ?_, passed_some := ?_, sent_lt := h.sent_lt, apart := ?_ }
  · intro j hj
    by_cases hji : j = i
    · subst hji
      rw [setWorker_workers_self, Ledger.reach_reached_self, ofWorker_reach_self]
      exact hturn
    · rw [setWorker_workers_of_ne _ _ hji, Ledger.reach_reached_of_ne _ _ hji,
        ofWorker_reach_of_ne _ _ hji]
      exact h.duty j hj
  · simp only [Ledger.reach]
    split
    · exact List.forall_mem_append.mpr ⟨h.passed_lt, List.forall_mem_singleton.mpr hi⟩
    · exact h.passed_lt
  · simp only [Ledger.reach]
    split
    · rename_i hlt
      exact List.forall_mem_append.mpr ⟨h.passed_some, List.forall_mem_singleton.mpr hlt⟩
    · exact h.passed_some
  · simp only [Ledger.reach]
    split
    · refine List.pairwise_append.mpr ⟨h.apart, List.pairwise_singleton .., ?_⟩
      intro entry hmem later hlater
      rw [List.mem_singleton.mp hlater]
      exact h.not_has hi hturn.walked.le_finish hmem
    · exact h.apart

theorem Kept.move (h : Kept job s) (hmove : Move job s action s') (hserved : job.Served) :
    Kept job s' := by
  cases hmove with
  | ask answer tally log hi hworker hgiven => exact h.ask hi hworker hgiven
  | turn hi hworker => exact h.turn hi hworker hserved
  | rest hrest => exact h
  | other hother hworkers hflag =>
    exact { h with duty := fun i hi ↦ hworkers.symm ▸ (h.duty i hi).raise hflag }

theorem kept (hserved : job.Served) (flag : Bool) (now : Instant) (actions : List Crew.Action) :
    Kept job ((job.open flag now).run job actions) := by
  induction actions using List.reverseRecOn with
  | nil => exact .open job flag now
  | append_singleton actions action ih =>
    rw [Shift.run_concat]
    exact ih.move (move_step job _ action) hserved

/-- Nothing is sent twice, and nothing but accepted shares. -/
theorem Kept.sent_subperm (h : Kept job s) (hthreads : 0 < job.miner.threads) (hserved : job.Served) :
    (s.ledger.sent.map (·.2)).Subperm (job.item.acceptedShares 0 UInt32.size) := by
  rw [← job.item.flatMap_acceptedShares_portion hthreads]
  apply (perm_flatMap_ofWorker h.sent_lt).symm.subperm.trans
  apply List.Sublist.subperm
  apply List.Sublist.flatMap_right
  intro i hi
  have hlt := List.mem_range.mp hi
  exact ((h.duty i hlt).sent_starts hlt hserved).sublist

/-- A worker that has ended before anybody raised the flag has been through its portion. -/
theorem Kept.ended_eq (h : Kept job s) {i : Nat} (hi : i < job.miner.threads)
    (hended : ∃ item, s.crew.workers i = .ended item) (hflag : s.crew.flag = false) :
    s.ledger.reached i = (job.portion i).finish ∧
      ofWorker i s.ledger.sent = job.item.acceptedShares (job.portion i).first (job.portion i).finish := by
  have hduty := h.duty i hi
  obtain ⟨item, hworker⟩ := hended
  rw [hworker] at hduty
  cases hduty with
  | ended hwalked hsent hfinished => exact ⟨hfinished hflag, hfinished hflag ▸ hsent⟩

/-- When all workers have ended and nobody has raised the flag, nothing is missing. -/
theorem Kept.sent_perm (h : Kept job s) (hthreads : 0 < job.miner.threads)
    (hended : job.allEnded s.crew = true) (hflag : s.crew.flag = false) :
    (s.ledger.sent.map (·.2)).Perm (job.item.acceptedShares 0 UInt32.size) := by
  rw [← job.item.flatMap_acceptedShares_portion hthreads]
  apply (perm_flatMap_ofWorker h.sent_lt).symm.trans
  apply List.Perm.of_eq
  apply List.flatMap_congr
  intro i hmem
  have hi := List.mem_range.mp hmem
  exact (h.ended_eq hi (allEnded_iff.mp hended i hi) hflag).2

end Runs

end Hashwork.Mining
