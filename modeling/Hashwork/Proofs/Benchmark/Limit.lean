import Hashwork.Proofs.Benchmark.Breakdown

/-!
# Deadlines that a clock can show

A measurement is given up only if its deadline is past what a clock can show.  So with any other deadline it has an
outcome, and with outcomes of isolated measurements a benchmark has a result.
-/

namespace Hashwork

namespace Isolation

section Runs

variable {setup : Setup} {now : Instant} {schedule : Nat → Action}

/-- What was so in a run up to some step was so after one of the steps. -/
theorem Setup.Reached.exists_runTo {P : State → Prop} {n : Nat}
    (h : setup.Reached now ((List.range n).map schedule) P) : ∃ m, P (setup.runTo now schedule m) := by
  obtain ⟨before, after, heq, hP⟩ := h
  have hbefore : before = (List.range (min before.length n)).map schedule := by
    rw [← List.take_range, List.map_take, heq, List.take_left]
  rw [hbefore] at hP
  exact ⟨_, hP⟩

/-- If a clock can show the deadline there is an outcome, as long as the supervisor gets its turns and the clock
goes on. -/
theorem exists_outcome (hfair : Fair setup now schedule)
    (hdue : ∀ n, (setup.runTo now schedule n).supervisor = .launched →
      (setup.runTo now schedule n).now.nanos + setup.timeout.totalNanos < Instant.limit) :
    ∃ n outcome, (setup.runTo now schedule n).result? = some (.outcome outcome) := by
  obtain ⟨n, hn⟩ := exists_result hfair
  obtain ⟨result, hresult⟩ := Option.isSome_iff_exists.mp hn
  cases result with
  | outcome outcome => exact ⟨n, outcome, hresult⟩
  | overflowed =>
    obtain ⟨m, hlaunched, hnever⟩ := ((concluded hresult).overflowed_iff.mp rfl).exists_runTo
    exact absurd ((Instant.add?_eq_none_iff _ _).mp hnever) (Nat.not_le.mpr (hdue m hlaunched))

end Runs

/-- A measurement may come to this result while the timeout is not too long for the clock. -/
def Setup.EndsInTime (setup : Setup) (result : Result) : Prop :=
  ∃ now actions, (setup.run now actions).result? = some result ∧
    (setup.run now actions).now.nanos + setup.timeout.totalNanos < Instant.limit

theorem Setup.EndsInTime.ne_overflowed {setup : Setup} {result : Result} (h : setup.EndsInTime result) :
    result ≠ .overflowed := by
  obtain ⟨now, actions, hresult, hlt⟩ := h
  intro heq
  exact absurd ((concluded hresult).limit_le heq) (Nat.not_le.mpr hlt)

end Isolation

namespace Harness

open Routine

/-- An isolated measurement may come to this result in a child that does something or other, while the timeout is
not too long for the clock. -/
def EndsInTime (harness : Harness) (result : Isolation.Result) : Prop :=
  ∃ deed pipeFault forkFault reapsItself,
    (harness.setupOn deed pipeFault forkFault reapsItself).EndsInTime result

example : standard.EndsInTime (.outcome (.error (.exited Isolation.statusPanicked))) :=
  ⟨.panics, none, none, false, ⟨0⟩, (standard.setup .panics).plainSchedule .written, rfl, by decide⟩

theorem EndsInTime.ne_overflowed {harness : Harness} {result : Isolation.Result}
    (h : harness.EndsInTime result) : result ≠ .overflowed := by
  obtain ⟨deed, pipeFault, forkFault, reapsItself, hends⟩ := h
  exact hends.ne_overflowed

/-- Isolated measurements are answered with what they come to. -/
def Enacted (harness : Harness) : Exchange Event.Answer → Prop
  | ⟨.isolate _ _, result⟩ => harness.EndsInTime result
  | _ => True

theorem Enacted.not_isBreakdown {harness : Harness} {exchange : Exchange Event.Answer}
    (h : harness.Enacted exchange) : ¬ IsBreakdown exchange := by
  obtain ⟨e, answer⟩ := exchange
  cases e with
  | isolate kernel mode =>
    cases answer with
    | outcome outcome => exact id
    | overflowed => exact absurd rfl h.ne_overflowed
  | note line | measure kernel mode => exact id

theorem exists_result_of_enacted {harness : Harness} {processor : Processor} {algorithm : Algorithm}
    {mode : BenchMode} {t : List (Exchange Event.Answer)} {attempt : Attempt BenchResult}
    (htrace : Trace (harness.benchmark processor algorithm mode) t attempt)
    (henacted : ∀ exchange ∈ t, harness.Enacted exchange) :
    ∃ outcome, attempt = .ok (BenchResult.ofOutcome algorithm outcome) := by
  rcases propagates_benchmark harness processor algorithm mode t attempt htrace with
    ⟨⟨exchange, hmem, hbroken⟩, -⟩ | ⟨-, hresult⟩
  · exact absurd hbroken (henacted exchange hmem).not_isBreakdown
  · exact hresult

end Harness

end Hashwork
