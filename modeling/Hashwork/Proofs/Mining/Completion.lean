import Hashwork.Proofs.Mining.Delivery
import Hashwork.Proofs.Schedule
import Mathlib.Data.Finset.Lattice.Fold
import Mathlib.Order.Monotone.Basic

/-!
# Mining comes to an end

If every worker and the collector get their turns again and again, the workers reach the ends of their
portions, and then the collector empties the channel and ends.
-/

namespace Hashwork.Mining

section Steps

variable {job : Job} {s s' : Shift} {action : Crew.Action} {i : Nat}

/-- A worker waits while others take steps. -/
theorem Move.of_ne (h : Move job s action s') (hne : action ≠ .worker i) :
    s'.crew.workers i = s.crew.workers i ∧ s'.ledger.reached i = s.ledger.reached i := by
  cases h with
  | @ask j =>
    have hji : i ≠ j := fun heq ↦ hne (heq ▸ rfl)
    exact ⟨setWorker_workers_of_ne _ _ hji, rfl⟩
  | @turn j =>
    have hji : i ≠ j := fun heq ↦ hne (heq ▸ rfl)
    exact ⟨setWorker_workers_of_ne _ _ hji, Ledger.reach_reached_of_ne _ _ hji⟩
  | rest => exact ⟨rfl, rfl⟩
  | other hother hworkers => exact ⟨congrFun hworkers i, rfl⟩

theorem Move.asked {e : Worker.Event} {next : e.Answer → Worker.Working Worker.Turn}
    (h : Move job s (.worker i) s') (hi : i < job.miner.threads)
    (hworker : s.crew.workers i = .working (.ask e next)) :
    ∃ answer, s'.crew.workers i = .working (next answer) ∧
      s'.ledger.reached i = s.ledger.reached i := by
  cases h with
  | ask answer tally log _ hworker' =>
    cases hworker.symm.trans hworker'
    exact ⟨answer, setWorker_workers_self _ _ _, rfl⟩
  | turn _ hworker' => cases hworker.symm.trans hworker'
  | rest hrest =>
    obtain ⟨item, hended⟩ := hrest hi
    cases hworker.symm.trans hended
  | other hother => exact absurd rfl (hother i)

theorem Move.turned {turn : Worker.Turn} (h : Move job s (.worker i) s') (hi : i < job.miner.threads)
    (hworker : s.crew.workers i = .working (.done turn)) :
    s'.crew.workers i = job.after i turn ∧ s'.ledger.reached i = turn.item.nextNonce := by
  cases h with
  | ask answer tally log _ hworker' => cases hworker.symm.trans hworker'
  | turn _ hworker' =>
    cases hworker.symm.trans hworker'
    exact ⟨setWorker_workers_self _ _ _, Ledger.reach_reached_self _ _ _⟩
  | rest hrest =>
    obtain ⟨item, hended⟩ := hrest hi
    cases hworker.symm.trans hended
  | other hother => exact absurd rfl (hother i)

theorem Move.ended {item : WorkItem} (h : Move job s action s')
    (hended : s.crew.workers i = .ended item) : s'.crew.workers i = .ended item := by
  by_cases haction : action = .worker i
  · subst haction
    cases h with
    | ask answer tally log _ hworker => cases hended.symm.trans hworker
    | turn _ hworker => cases hended.symm.trans hworker
    | rest => exact hended
    | other hother => exact absurd rfl (hother i)
  · exact (h.of_ne haction).1.trans hended

end Steps

/-- Everyone gets a turn again and again. -/
structure Fair (job : Job) (schedule : Nat → Crew.Action) : Prop where
  worked : ∀ i < job.miner.threads, ∀ n, ∃ m, n ≤ m ∧ schedule m = .worker i
  collected : ∀ n, ∃ m, n ≤ m ∧ schedule m = .collector

/-- The shifts of an endless run. -/
structure Course (job : Job) (schedule : Nat → Crew.Action) (course : Nat → Shift) : Prop
    extends Fair job schedule where
  next : ∀ n, course (n + 1) = (course n).step job (schedule n)
  kept : ∀ n, Kept job (course n)

section Workers

variable {job : Job} {schedule : Nat → Crew.Action} {course : Nat → Shift} {i : Nat}

theorem Course.move (h : Course job schedule course) (n : Nat) :
    Move job (course n) (schedule n) (course (n + 1)) := by
  rw [h.next]
  exact move_step job (course n) (schedule n)

/-- A worker gets its turn as it is. -/
theorem Course.exists_worker (h : Course job schedule course) (hi : i < job.miner.threads) (n : Nat) :
    ∃ m, n ≤ m ∧ schedule m = .worker i ∧ (course m).crew.workers i = (course n).crew.workers i ∧
      (course m).ledger.reached i = (course n).ledger.reached i := by
  have hkept (n : Nat) (hne : ¬ schedule n = .worker i) :
      ((course (n + 1)).crew.workers i, (course (n + 1)).ledger.reached i) =
        ((course n).crew.workers i, (course n).ledger.reached i) := by
    obtain ⟨hworker, hreached⟩ := (h.move n).of_ne hne
    rw [hworker, hreached]
  obtain ⟨m, hle, hm, heq⟩ := @exists_next _
    (fun n ↦ ((course n).crew.workers i, (course n).ledger.reached i)) _ hkept (h.worked i hi) n
  obtain ⟨hworker, hreached⟩ := Prod.mk.inj heq
  exact ⟨m, hle, hm, hworker, hreached⟩

/-- A turn that has begun comes to an end, whatever the answers are. -/
theorem Course.exists_done (h : Course job schedule course) (hi : i < job.miner.threads)
    {rest : Worker.Working Worker.Turn} {n : Nat}
    (hworker : (course n).crew.workers i = .working rest) :
    ∃ m turn, (course m).crew.workers i = .working (.done turn) ∧
      (course m).ledger.reached i = (course n).ledger.reached i := by
  induction rest generalizing n with
  | done turn => exact ⟨n, turn, hworker, rfl⟩
  | ask e next ih =>
    obtain ⟨m, -, hm, hsame, hreached⟩ := h.exists_worker hi n
    obtain ⟨answer, hnext, hkept⟩ := (hm ▸ h.move m).asked hi (hsame.trans hworker)
    obtain ⟨l, turn, hdone, heq⟩ := ih answer hnext
    exact ⟨l, turn, hdone, heq.trans (hkept.trans hreached)⟩

/-- Each turn gets a worker further, or is its last. -/
theorem Course.exists_ended (h : Course job schedule course) (hi : i < job.miner.threads)
    (hserved : job.Served) : ∃ n item, (course n).crew.workers i = .ended item := by
  -- The nonces between where a worker has got to and the end of its portion get fewer with each turn.
  have hfalls (n : Nat) : (∃ m item, (course m).crew.workers i = .ended item) ∨
      ∃ m, (job.portion i).finish - (course m).ledger.reached i <
        (job.portion i).finish - (course n).ledger.reached i := by
    cases hworker : (course n).crew.workers i with
    | ended item => exact .inl ⟨n, item, hworker⟩
    | working rest =>
      obtain ⟨l, turn, hdone, hbefore⟩ := h.exists_done hi hworker
      obtain ⟨m, -, hm, hsame, hreached⟩ := h.exists_worker hi l
      obtain ⟨hafter, hnonce⟩ := (hm ▸ h.move m).turned hi (hsame.trans hdone)
      cases turn with
      | last item => exact .inl ⟨m + 1, item, hafter⟩
      | again item =>
        have hlt : (course m).ledger.reached i < item.nextNonce := by
          have hduty := (h.kept m).duty i hi
          rw [hsame, hdone] at hduty
          exact hduty.reached_lt hi hserved
        have hle := (h.kept (m + 1)).reached_le hi
        rw [hnonce] at hle
        refine .inr ⟨m + 1, ?_⟩
        rw [hnonce, ← hbefore, ← hreached]
        exact Nat.sub_lt_sub_left (hlt.trans_le hle) hlt
  obtain ⟨-, n, item, hended⟩ := exists_of_descent hfalls
  exact ⟨n, item, hended⟩

theorem Course.ended (h : Course job schedule course) {n m : Nat} (hle : n ≤ m) {item : WorkItem}
    (hended : (course n).crew.workers i = .ended item) : (course m).crew.workers i = .ended item := by
  induction m, hle using Nat.le_induction with
  | base => exact hended
  | succ m _ ih => exact (h.move m).ended ih

theorem Course.exists_allEnded (h : Course job schedule course) (hserved : job.Served) :
    ∃ n, ∀ m, n ≤ m → job.allEnded (course m).crew = true := by
  have hone (i : Nat) : ∃ n, i < job.miner.threads → ∃ item, (course n).crew.workers i = .ended item := by
    by_cases hi : i < job.miner.threads
    · obtain ⟨n, hended⟩ := h.exists_ended hi hserved
      exact ⟨n, fun _ ↦ hended⟩
    · exact ⟨0, fun hlt ↦ absurd hlt hi⟩
  choose end? hend using hone
  refine ⟨(Finset.range job.miner.threads).sup end?, fun m hle ↦ ?_⟩
  apply allEnded_iff.mpr
  intro i hi
  obtain ⟨item, hended⟩ := hend i hi
  exact ⟨item, h.ended ((Finset.le_sup (Finset.mem_range.mpr hi)).trans hle) hended⟩

end Workers

section Collectors

open Collector

variable {job : Job} {schedule : Nat → Crew.Action} {course : Nat → Shift} {n : Nat}

theorem Move.collector_eq {s s' : Shift} {i : Nat} (h : Move job s (.worker i) s') :
    s'.crew.collector = s.crew.collector := by
  cases h with
  | ask | turn | rest => rfl
  | other hother => exact absurd rfl (hother i)

theorem step_collector_eq (s : Shift) {action : Crew.Action} (hne : action ≠ .collector) :
    (s.step job action).crew.collector = s.crew.collector := by
  cases action with
  | worker i => exact (move_step job s _).collector_eq
  | collector => exact absurd rfl hne
  | tick d =>
    obtain ⟨now, htick⟩ := exists_step_tick job s d
    rw [htick]
  | cancel => rfl

theorem exists_collector_asked {s : Shift} {e : Event} {next : e.Answer → Collecting Turn}
    (hcollector : s.crew.collector = .collecting (.ask e next)) :
    ∃ answer, (s.step job .collector).crew.collector = .collecting (next answer) := by
  rw [step_collecting hcollector]
  cases e with
  | receive =>
    simp only [Crew.stepCollector]
    cases s.crew.channel <;> exact ⟨_, rfl⟩
  | _ => exact ⟨_, rfl⟩

/-- The collector gets its turn as it is. -/
theorem Course.exists_collector (h : Course job schedule course) (n : Nat) :
    ∃ m, n ≤ m ∧ course (m + 1) = (course m).step job .collector ∧
      (course m).crew.collector = (course n).crew.collector := by
  have hkept (n : Nat) (hne : ¬ schedule n = .collector) :
      (course (n + 1)).crew.collector = (course n).crew.collector := by
    rw [h.next]
    exact step_collector_eq _ hne
  obtain ⟨m, hle, hm, hsame⟩ :=
    @exists_next _ (fun n ↦ (course n).crew.collector) _ hkept h.collected n
  exact ⟨m, hle, hm ▸ h.next m, hsame⟩

theorem Course.exists_collected (h : Course job schedule course) {rest : Collecting Turn}
    (hcollector : (course n).crew.collector = .collecting rest) :
    ∃ m t turn, n ≤ m ∧ Routine.Trace rest t turn ∧
      (course m).crew.collector = .collecting (.done turn) := by
  induction rest generalizing n with
  | done turn => exact ⟨n, [], turn, Nat.le_refl n, .done turn, hcollector⟩
  | ask e next ih =>
    obtain ⟨m, hle, hm, hsame⟩ := h.exists_collector n
    obtain ⟨answer, hnext⟩ := @exists_collector_asked job _ _ _ (hsame.trans hcollector)
    rw [← hm] at hnext
    obtain ⟨l, t, turn, hle', htrace, hdone⟩ := ih answer hnext
    exact ⟨l, _, turn, (Nat.le_succ_of_le hle).trans hle', .ask answer htrace, hdone⟩

/-- When all workers have ended, the channel only gets shorter. -/
theorem channel_length_le {s : Shift}
    (hended : job.allEnded s.crew = true) (action : Crew.Action) :
    (s.step job action).crew.channel.length ≤ s.crew.channel.length := by
  cases action with
  | worker i =>
    have hmove := move_step job s (.worker i)
    generalize s.step job (.worker i) = s' at hmove ⊢
    cases hmove with
    | ask answer tally log hi hworker => exact absurd hworker (ne_working_of_allEnded hended hi)
    | turn hi hworker => exact absurd hworker (ne_working_of_allEnded hended hi)
    | rest => exact Nat.le_refl _
    | other hother => exact absurd rfl (hother i)
  | collector => exact (step_collector job s.crew).2.1.length_le
  | tick d =>
    obtain ⟨now, htick⟩ := exists_step_tick job s d
    rw [htick]
  | cancel => exact Nat.le_refl _

theorem Course.channel_length_le (h : Course job schedule course) {m : Nat}
    (hended : ∀ l, n ≤ l → job.allEnded (course l).crew = true)
    (hle : n ≤ m) : (course m).crew.channel.length ≤ (course n).crew.channel.length := by
  induction m, hle using Nat.le_induction with
  | base => exact Nat.le_refl _
  | succ m hle ih =>
    rw [h.next]
    exact (Mining.channel_length_le (hended m hle) _).trans ih

theorem Course.exists_total_of_last (h : Course job schedule course) {total : Nat}
    (hcollector : (course n).crew.collector = .collecting (.done (.last total))) :
    ∃ m, (course m).crew.total?.isSome = true := by
  obtain ⟨m, -, hm, hsame⟩ := h.exists_collector n
  refine ⟨m + 1, ?_⟩
  rw [hm, step_collecting (hsame.trans hcollector)]
  rfl

/-- When all workers have ended, a turn of the collector takes a share out of the channel or is its last. -/
theorem Course.exists_shorter_of_turn (h : Course job schedule course)
    (hended : ∀ l, n ≤ l → job.allEnded (course l).crew = true)
    {started : Instant} {total : Nat}
    (hcollector : (course n).crew.collector = .collecting (turn job.deadline started total)) :
    (∃ m, (course m).crew.total?.isSome = true) ∨
      ∃ m, n ≤ m ∧ (course m).crew.channel.length < (course n).crew.channel.length := by
  obtain ⟨m, hle, hm, hsame⟩ := h.exists_collector n
  have hstep := @step_collecting job _ _ (hsame.trans hcollector)
  rw [← hm] at hstep
  have hshorter := h.channel_length_le hended hle
  cases hchannel : (course m).crew.channel with
  | cons share rest =>
    simp only [turn, Crew.stepCollector, hchannel] at hstep
    refine .inr ⟨m + 1, Nat.le_succ_of_le hle, ?_⟩
    rw [hstep]
    rw [hchannel] at hshorter
    exact hshorter
  | nil =>
    simp only [turn, Crew.stepCollector, hchannel] at hstep
    rw [if_pos (hended m hle)] at hstep
    left
    have hclosing : (course (m + 1)).crew.collector =
        .collecting (.ask .takeTally fun nonces ↦ .done (.last (total + nonces))) := by
      rw [hstep]
      rfl
    obtain ⟨l, t, turn, -, htrace, hdone⟩ := h.exists_collected hclosing
    obtain ⟨nonces, _, -, hlast⟩ := Routine.trace_ask_iff.mp htrace
    obtain ⟨-, rfl⟩ := Routine.trace_done_iff.mp hlast
    exact h.exists_total_of_last hdone

theorem Course.exists_shorter (h : Course job schedule course)
    (hended : ∀ l, n ≤ l → job.allEnded (course l).crew = true) :
    (∃ m, (course m).crew.total?.isSome = true) ∨
      ∃ m, n ≤ m ∧ (course m).crew.channel.length < (course n).crew.channel.length := by
  cases hcollector : (course n).crew.collector with
  | ended total =>
    left
    refine ⟨n, ?_⟩
    simp only [Crew.total?, hcollector, Option.isSome_some]
  | collecting rest =>
    obtain ⟨l, t, turn, hle, -, hdone⟩ := h.exists_collected hcollector
    cases turn with
    | last total => exact .inl (h.exists_total_of_last hdone)
    | again started total =>
      obtain ⟨m, hle', hm, hsame⟩ := h.exists_collector l
      have hturn : (course (m + 1)).crew.collector =
          .collecting (Collector.turn job.deadline started total) := by
        rw [hm, step_collecting (hsame.trans hdone)]
        rfl
      have hlater : n ≤ m + 1 := Nat.le_succ_of_le (hle.trans hle')
      have hshorter := h.channel_length_le hended hlater
      rcases h.exists_shorter_of_turn (fun l hl ↦ hended l (hlater.trans hl)) hturn with htotal | hmore
      · exact .inl htotal
      · obtain ⟨k, hk, hlt⟩ := hmore
        exact .inr ⟨k, hlater.trans hk, hlt.trans_le hshorter⟩

theorem Course.exists_total (h : Course job schedule course)
    (hserved : job.Served) : ∃ n, (course n).crew.total?.isSome = true := by
  obtain ⟨n, hended⟩ := h.exists_allEnded hserved
  have hfalls (k : Nat) : (∃ m, (course m).crew.total?.isSome = true) ∨
      ∃ m, (course (n + m)).crew.channel.length < (course (n + k)).crew.channel.length := by
    have hlater (l : Nat) (hl : n + k ≤ l) := hended l ((Nat.le_add_right n k).trans hl)
    rcases h.exists_shorter hlater with htotal | ⟨m, hle, hlt⟩
    · exact .inl htotal
    · obtain ⟨l, rfl⟩ := Nat.exists_eq_add_of_le ((Nat.le_add_right n k).trans hle)
      exact .inr ⟨l, hlt⟩
  obtain ⟨-, htotal⟩ := exists_of_descent hfalls
  exact htotal

end Collectors

end Hashwork.Mining
