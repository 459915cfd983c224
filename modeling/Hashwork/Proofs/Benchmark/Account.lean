import Hashwork.Benchmark.Isolation
import Hashwork.Proofs.Benchmark.Sample
import Mathlib.Data.List.Basic

/-!
# What explains the outcome of an isolated measurement

A sample was measured by the child and got through the pipe, and the child has exited as it should.  Every
other outcome says what happened to the child or to the supervisor.  What has happened in a run has happened
in all that it goes on to.
-/

namespace Hashwork.Isolation

/-- The result of an attempt to write that is made with an action. -/
def State.write? (s : State) : Action → Option WriteResult
  | .child result =>
    match s.child with
    | .writing .. => some result
    | _ => none
  | _ => none

namespace Setup

variable (setup : Setup)

/-- What the child's attempts to write come to, in order. -/
def writes : State → List Action → List WriteResult
  | _, [] => []
  | s, action :: rest => (s.write? action).toList ++ writes (setup.step s action) rest

/-- At some moment of a run this was so. -/
def Reached (now : Instant) (actions : List Action) (P : State → Prop) : Prop :=
  ∃ before after, actions = before ++ after ∧ P (setup.run now before)

/-- The child has written a sample, which took no more attempts than it has. -/
structure Wrote (writes : List WriteResult) (sample : Sample) : Prop where
  deed_eq : setup.deed = .measured (some sample)
  exists_delays : ∃ delays, writes = delays ++ [.written] ∧
    (∀ result ∈ delays, result = .wouldBlock ∨ result = .interrupted) ∧
    delays.length < setup.writeAttempts

/-- The deadline is the timeout after the moment when the supervisor began to look for the child's end. -/
def Due (now : Instant) (actions : List Action) (deadline : Instant) : Prop :=
  setup.Reached now actions fun s ↦
    s.supervisor = .launched ∧ s.now.add? setup.timeout = some deadline

/-- A poll has found the child running, unless it was interrupted. -/
def Polled (now : Instant) (actions : List Action) (deadline : Instant) : Prop :=
  ∃ before interrupted after, actions = before ++ .supervisor interrupted :: after ∧
    (setup.run now before).supervisor = .polling deadline ∧
    (interrupted = false → (setup.run now before).child.isRunning)

/-- After such a poll the supervisor has looked at the clock, and the deadline had passed. -/
def Overran (now : Instant) (actions : List Action) : Prop :=
  ∃ deadline before after, actions = before ++ after ∧ setup.Due now before deadline ∧
    setup.Polled now before deadline ∧ (setup.run now before).supervisor = .watching deadline ∧
    deadline.nanos ≤ (setup.run now before).now.nanos

/-- What has happened when there is an outcome. -/
inductive Explained (now : Instant) (actions : List Action) : BenchOutcome → Prop
  | noPipe {text : String} (h : setup.pipeFault = some text) :
    Explained now actions (.error (.io text))
  | noChild {text : String} (hpipe : setup.pipeFault = none) (h : setup.forkFault = some text) :
    Explained now actions (.error (.io text))
  | sample {sample : Sample} (hwrote : setup.Wrote (setup.writes (.start now) actions) sample)
    (hended : setup.Reached now actions fun s ↦ s.child = .ended (.exited statusOk)) :
    Explained now actions (.ok sample.saturated)
  | noResult (hwrites : .written ∉ setup.writes (.start now) actions)
    (hended : setup.Reached now actions fun s ↦ s.child = .ended (.exited statusOk)) :
    Explained now actions (.error .noResult)
  | mismatch (hended : setup.Reached now actions fun s ↦ s.child = .ended (.exited statusMismatch)) :
    Explained now actions (.error .mismatch)
  | exited {status : Nat} (hok : status ≠ statusOk) (hmismatch : status ≠ statusMismatch)
    (hended : setup.Reached now actions fun s ↦ s.child = .ended (.exited status)) :
    Explained now actions (.error (.exited status))
  | crashed {signal : Nat}
    (hended : setup.Reached now actions fun s ↦ s.child = .ended (.killed signal)) :
    Explained now actions (.error (.crashed signal))
  | missing (hreaps : setup.reapsItself = true)
    (hgone : setup.Reached now actions fun s ↦
      s.child = .gone ∧ ∃ deadline, s.supervisor = .polling deadline) :
    Explained now actions (.error (.io childMissing))
  | timedOut (h : setup.Overran now actions) :
    Explained now actions (.error (.timedOut setup.timeout))

end Setup

section Runs

variable {setup : Setup} {now deadline : Instant} {actions : List Action} {P : State → Prop}

theorem run_concat (action : Action) :
    setup.run now (actions ++ [action]) = setup.step (setup.run now actions) action := by
  simp only [Setup.run, List.foldl_append, List.foldl_cons, List.foldl_nil]

theorem writes_concat (s : State) (action : Action) :
    setup.writes s (actions ++ [action]) =
      setup.writes s actions ++ ((actions.foldl setup.step s).write? action).toList := by
  induction actions generalizing s with
  | nil => simp only [List.nil_append, Setup.writes, List.append_nil, List.foldl_nil]
  | cons first actions ih =>
    simp only [List.cons_append, Setup.writes, ih, List.append_assoc, List.foldl_cons]

-- The new time is a variable, so that no sum of large numerals is ever compared with the old one.
theorem exists_step_tick (setup : Setup) (s : State) (d : Duration) :
    ∃ t, s.now.nanos ≤ t.nanos ∧ setup.step s (.tick d) = { s with now := t } :=
  ⟨_, Nat.le_add_right s.now.nanos d.totalNanos, rfl⟩

theorem Setup.Reached.of_run (h : P (setup.run now actions)) : setup.Reached now actions P :=
  ⟨actions, [], (List.append_nil actions).symm, h⟩

theorem Setup.Reached.append (h : setup.Reached now actions P) (later : List Action) :
    setup.Reached now (actions ++ later) P := by
  obtain ⟨before, after, rfl, hP⟩ := h
  exact ⟨before, after ++ later, List.append_assoc _ _ _, hP⟩

theorem Setup.Polled.append (h : setup.Polled now actions deadline) (later : List Action) :
    setup.Polled now (actions ++ later) deadline := by
  obtain ⟨before, interrupted, after, rfl, hpolled⟩ := h
  exact ⟨before, interrupted, after ++ later, List.append_assoc _ _ _, hpolled⟩

theorem Setup.Overran.append (h : setup.Overran now actions) (later : List Action) :
    setup.Overran now (actions ++ later) := by
  obtain ⟨deadline, before, after, rfl, hover⟩ := h
  exact ⟨deadline, before, after ++ later, List.append_assoc _ _ _, hover⟩

/-- What has happened has happened, if only the child writes no more. -/
theorem Setup.Explained.append {outcome : BenchOutcome} {later : List Action}
    (h : setup.Explained now actions outcome)
    (hwrites : setup.writes (.start now) (actions ++ later) = setup.writes (.start now) actions) :
    setup.Explained now (actions ++ later) outcome := by
  cases h with
  | noPipe h => exact .noPipe h
  | noChild hpipe h => exact .noChild hpipe h
  | sample hwrote hended =>
    rw [← hwrites] at hwrote
    exact .sample hwrote (hended.append later)
  | noResult hnot hended =>
    rw [← hwrites] at hnot
    exact .noResult hnot (hended.append later)
  | mismatch hended => exact .mismatch (hended.append later)
  | exited hok hmismatch hended => exact .exited hok hmismatch (hended.append later)
  | crashed hended => exact .crashed (hended.append later)
  | missing hreaps hgone => exact .missing hreaps (hgone.append later)
  | timedOut h => exact .timedOut (h.append later)

end Runs

end Hashwork.Isolation
