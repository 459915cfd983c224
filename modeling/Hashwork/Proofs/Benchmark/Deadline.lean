import Hashwork.Proofs.Benchmark.Supervisor
import Hashwork.Proofs.Schedule
import Mathlib.Order.Monotone.Basic

/-!
# The supervisor always comes to an end

Whatever the child does, and even if it does nothing, the supervisor comes to a result, as long as it gets its
turns and the clock goes on.
-/

namespace Hashwork

/-- No point in time that a clock can show is as late as this. -/
def Instant.limit : Nat := (lastSecond + 1) * 1000000000

theorem Instant.nanos_lt_limit {t deadline : Instant} {d : Duration} (h : t.add? d = some deadline) :
    deadline.nanos < limit := by
  by_cases hle : (t.nanos + d.totalNanos) / 1000000000 ≤ lastSecond
  · simp only [add?, if_pos hle, Option.some.injEq] at h
    subst h
    exact Nat.lt_mul_of_div_lt (Nat.lt_succ_of_le hle) (by decide)
  · simp only [add?, if_neg hle] at h
    cases h

namespace Isolation

def Setup.runTo (setup : Setup) (now : Instant) (schedule : Nat → Action) (n : Nat) : State :=
  setup.run now ((List.range n).map schedule)

structure Fair (setup : Setup) (now : Instant) (schedule : Nat → Action) : Prop where
  /-- The supervisor gets a turn again and again. -/
  supervised : ∀ n, ∃ m, n ≤ m ∧ ∃ interrupted, schedule m = .supervisor interrupted
  /-- The clock passes every moment. -/
  timed : ∀ nanos, ∃ n, nanos ≤ (setup.runTo now schedule n).now.nanos

/-- How far the supervisor is from its end, but for the time that it spends waiting. -/
def Supervisor.rank : Supervisor → Nat
  | .starting => 6
  | .forking => 5
  | .launched => 4
  | .polling _ | .watching _ => 3
  | .killing | .collected _ => 2
  | .closing _ => 1
  | .finished _ | .overflowed => 0

section Steps

variable {setup : Setup} {now deadline : Instant} {schedule : Nat → Action} {n : Nat}
  {interrupted : Bool} {s : State}

theorem runTo_succ (setup : Setup) (now : Instant) (schedule : Nat → Action) (n : Nat) :
    setup.runTo now schedule (n + 1) = setup.step (setup.runTo now schedule n) (schedule n) := by
  simp only [Setup.runTo, List.range_succ, List.map_append, List.map_singleton, run_concat]

theorem now_tick (setup : Setup) (s : State) (d : Duration) :
    (setup.step s (.tick d)).now.nanos = s.now.nanos + d.totalNanos := rfl

theorem step_supervisor_eq (s : State) {action : Action}
    (hother : ∀ interrupted, action ≠ .supervisor interrupted) :
    (setup.step s action).supervisor = s.supervisor :=
  (passed_step setup s hother).supervisor_eq

/-- A turn of the supervisor gets it nearer to its end, unless it waits or is there. -/
theorem Turn.rank_lt {s' : State} (h : Turn setup interrupted s s') (hwaits : s.supervisor.rank ≠ 3)
    (hpos : s.supervisor.rank ≠ 0) : s'.supervisor.rank < s.supervisor.rank := by
  cases h with
  | noPipe hs | makePipe hs | noChild hs | makeChild hs | due hs | never hs | kill hs | report hs
  | close hs =>
    rw [hs]
    simp only [Supervisor.rank]
    decide
  | collect hs | missing hs | poll hs | late hs | early hs =>
    rw [hs] at hwaits
    exact absurd rfl hwaits
  | rest hs =>
    rcases hs with ⟨outcome, hs⟩ | hs
    · rw [hs] at hpos
      exact absurd rfl hpos
    · rw [hs] at hpos
      exact absurd rfl hpos

/-- After a poll the supervisor is nearer to its end, or else it is to look at the clock. -/
theorem Turn.of_polling {s' : State} (h : Turn setup interrupted s s')
    (hs : s.supervisor = .polling deadline) :
    s'.supervisor.rank < 3 ∨ s'.supervisor = .watching deadline := by
  cases h with
  | collect | missing =>
    left
    simp only [Supervisor.rank]
    decide
  | poll hpolling =>
    cases hs.symm.trans hpolling
    exact .inr rfl
  | noPipe hother | makePipe hother | noChild hother | makeChild hother | due hother | never hother
  | late hother | early hother | kill hother | report hother | close hother =>
    cases hs.symm.trans hother
  | rest hother => rcases hother with ⟨_, hother⟩ | hother <;> cases hs.symm.trans hother

/-- When the deadline has passed, it waits no longer. -/
theorem Turn.of_watching {s' : State} (h : Turn setup interrupted s s')
    (hs : s.supervisor = .watching deadline) (hlate : deadline.nanos ≤ s.now.nanos) :
    s'.supervisor = .killing := by
  cases h with
  | late => rfl
  | early hwatching hearly =>
    cases hs.symm.trans hwatching
    exact absurd hlate hearly
  | noPipe hother | makePipe hother | noChild hother | makeChild hother | due hother | never hother
  | collect hother | missing hother | poll hother | kill hother | report hother | close hother =>
    cases hs.symm.trans hother
  | rest hother => rcases hother with ⟨_, hother⟩ | hother <;> cases hs.symm.trans hother

theorem Turn.rank_le {s' : State} (h : Turn setup interrupted s s') :
    s'.supervisor.rank ≤ s.supervisor.rank := by
  cases h with
  | noPipe hs | makePipe hs | noChild hs | makeChild hs | due hs | never hs | collect hs | missing hs
  | poll hs | late hs | early hs | kill hs | report hs | close hs =>
    rw [hs]
    simp only [Supervisor.rank]
    decide
  | rest => exact Nat.le_refl _

theorem Turn.now_eq {s' : State} (h : Turn setup interrupted s s') : s'.now = s.now := by
  cases h <;> rfl

theorem passed_or_turn (setup : Setup) (s : State) (action : Action) :
    Passed setup action s (setup.step s action) ∨
      ∃ interrupted, Turn setup interrupted s (setup.step s action) := by
  cases action with
  | supervisor interrupted => exact .inr ⟨interrupted, turn_stepSupervisor setup interrupted s⟩
  | child result => exact .inl (passed_step setup s nofun)
  | signal number => exact .inl (passed_step setup s nofun)
  | tick d => exact .inl (passed_step setup s nofun)

end Steps

section Runs

variable {setup : Setup} {now : Instant} {schedule : Nat → Action}

theorem now_runTo_mono (setup : Setup) (now : Instant) (schedule : Nat → Action) :
    Monotone fun n ↦ (setup.runTo now schedule n).now.nanos := by
  apply monotone_nat_of_le_succ
  intro n
  rw [runTo_succ]
  rcases passed_or_turn setup (setup.runTo now schedule n) (schedule n) with h | ⟨interrupted, h⟩
  · exact h.now_le
  · rw [h.now_eq]

theorem rank_runTo_antitone (setup : Setup) (now : Instant) (schedule : Nat → Action) :
    Antitone fun n ↦ (setup.runTo now schedule n).supervisor.rank := by
  apply antitone_nat_of_succ_le
  intro n
  rw [runTo_succ]
  rcases passed_or_turn setup (setup.runTo now schedule n) (schedule n) with h | ⟨interrupted, h⟩
  · rw [h.supervisor_eq]
  · exact h.rank_le

/-- The next turn of the supervisor finds it where it is. -/
theorem exists_turn (h : Fair setup now schedule) (n : Nat) :
    ∃ m interrupted, n ≤ m ∧ (setup.runTo now schedule m).supervisor =
        (setup.runTo now schedule n).supervisor ∧
      Turn setup interrupted (setup.runTo now schedule m) (setup.runTo now schedule (m + 1)) := by
  have hkept (n : Nat) (hother : ¬ ∃ interrupted, schedule n = .supervisor interrupted) :
      (setup.runTo now schedule (n + 1)).supervisor = (setup.runTo now schedule n).supervisor := by
    rw [runTo_succ]
    exact step_supervisor_eq _ (not_exists.mp hother)
  obtain ⟨m, hle, ⟨interrupted, hm⟩, heq⟩ := @exists_next Supervisor
    (fun n ↦ (setup.runTo now schedule n).supervisor) _ hkept h.supervised n
  refine ⟨m, interrupted, hle, heq, ?_⟩
  rw [runTo_succ, hm]
  exact turn_stepSupervisor setup interrupted _

/-- While the supervisor polls, its deadline is one that a clock can show. -/
theorem nanos_lt_limit_of_rank {actions : List Action}
    (hrank : (setup.run now actions).supervisor.rank = 3) : ∃ deadline : Instant,
      deadline.nanos < Instant.limit ∧ ((setup.run now actions).supervisor = .polling deadline ∨
        (setup.run now actions).supervisor = .watching deadline) := by
  have hlimit (deadline : Instant) (hdue : setup.Due now actions deadline) :
      deadline.nanos < Instant.limit := by
    obtain ⟨before, after, -, -, hadd⟩ := hdue
    exact Instant.nanos_lt_limit hadd
  have hstage := (sound setup now actions).stage
  generalize (setup.run now actions).supervisor = supervisor at hrank hstage ⊢
  cases hstage with
  | polling hdue => exact ⟨_, hlimit _ hdue, .inl rfl⟩
  | watching hdue => exact ⟨_, hlimit _ hdue, .inr rfl⟩
  | starting | forking | launched | killing | collected | closing | finished | overflowed =>
    cases hrank

/-- Once every possible deadline has passed, the supervisor waits for at most one poll. -/
theorem exists_rank_lt_of_late (h : Fair setup now schedule) {n : Nat}
    (hrank : (setup.runTo now schedule n).supervisor.rank = 3)
    (hlate : Instant.limit ≤ (setup.runTo now schedule n).now.nanos) :
    ∃ m, (setup.runTo now schedule m).supervisor.rank < 3 := by
  have hwatching (n : Nat) (deadline : Instant) (hdeadline : deadline.nanos < Instant.limit)
      (hlate : Instant.limit ≤ (setup.runTo now schedule n).now.nanos)
      (hs : (setup.runTo now schedule n).supervisor = .watching deadline) :
      ∃ m, (setup.runTo now schedule m).supervisor.rank < 3 := by
    obtain ⟨m, interrupted, hle, heq, hturn⟩ := exists_turn h n
    have hpassed : deadline.nanos ≤ (setup.runTo now schedule m).now.nanos :=
      calc
        _ ≤ Instant.limit := Nat.le_of_lt hdeadline
        _ ≤ (setup.runTo now schedule n).now.nanos := hlate
        _ ≤ (setup.runTo now schedule m).now.nanos := now_runTo_mono setup now schedule hle
    refine ⟨m + 1, ?_⟩
    rw [hturn.of_watching (heq.trans hs) hpassed]
    decide
  obtain ⟨deadline, hdeadline, hs | hs⟩ := nanos_lt_limit_of_rank hrank
  · obtain ⟨m, interrupted, hle, heq, hturn⟩ := exists_turn h n
    rcases hturn.of_polling (heq.trans hs) with hlt | hs'
    · exact ⟨m + 1, hlt⟩
    · apply hwatching (m + 1) deadline hdeadline _ hs'
      exact hlate.trans (now_runTo_mono setup now schedule (Nat.le_succ_of_le hle))
  · exact hwatching n deadline hdeadline hlate hs

theorem exists_result (h : Fair setup now schedule) :
    ∃ n, (setup.runTo now schedule n).result?.isSome := by
  have hrank : ∃ n, (setup.runTo now schedule n).supervisor.rank = 0 := by
    apply @exists_of_descent fun n ↦ (setup.runTo now schedule n).supervisor.rank
    intro n
    by_cases hpos : (setup.runTo now schedule n).supervisor.rank = 0
    · exact .inl hpos
    · right
      by_cases hwaits : (setup.runTo now schedule n).supervisor.rank = 3
      · obtain ⟨k, hk⟩ := h.timed Instant.limit
        have hlate : Instant.limit ≤ (setup.runTo now schedule (max n k)).now.nanos :=
          hk.trans (now_runTo_mono setup now schedule (Nat.le_max_right n k))
        have hle : (setup.runTo now schedule (max n k)).supervisor.rank ≤ 3 :=
          hwaits ▸ rank_runTo_antitone setup now schedule (Nat.le_max_left n k)
        rw [hwaits]
        rcases Nat.lt_or_eq_of_le hle with hlt | heq
        · exact ⟨_, hlt⟩
        · exact exists_rank_lt_of_late h heq hlate
      · obtain ⟨m, interrupted, hle, heq, hturn⟩ := exists_turn h n
        rw [← heq] at hwaits hpos ⊢
        exact ⟨m + 1, hturn.rank_lt hwaits hpos⟩
  obtain ⟨n, hn⟩ := hrank
  refine ⟨n, ?_⟩
  unfold State.result?
  generalize (setup.runTo now schedule n).supervisor = supervisor at hn ⊢
  cases supervisor with
  | finished outcome => rfl
  | overflowed => rfl
  | _ => cases hn

end Runs

end Isolation

end Hashwork
