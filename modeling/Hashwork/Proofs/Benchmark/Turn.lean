import Hashwork.Proofs.Benchmark.Pipe

/-!
# What one step can do

The child's steps, signals and the clock leave the supervisor alone.  The supervisor takes a turn, and there
is one kind of turn for each way in which it can go on.
-/

namespace Hashwork.Isolation

/-- The child has been made, and the supervisor has neither reaped nor killed it. -/
structure Setup.Loose (setup : Setup) (child : Child) : Prop where
  ne_unborn : child ≠ .unborn
  reapsItself : child = .gone → setup.reapsItself = true

theorem loose_afterEnd (setup : Setup) (ending : Ending) :
    setup.Loose (setup.afterEnd ending) := by
  unfold Setup.afterEnd
  by_cases hreaps : setup.reapsItself
  · rw [if_pos hreaps]
    exact ⟨nofun, fun _ ↦ hreaps⟩
  · rw [if_neg hreaps]
    exact ⟨nofun, nofun⟩

theorem loose_act (setup : Setup) : setup.Loose setup.act := by
  unfold Setup.act
  split
  · split
    · exact ⟨nofun, nofun⟩
    · exact ⟨nofun, nofun⟩
  · exact ⟨nofun, nofun⟩
  · exact ⟨nofun, nofun⟩
  · exact loose_afterEnd setup _
  · exact loose_afterEnd setup _
  · exact ⟨nofun, nofun⟩

theorem loose_write (setup : Setup) (bytes : Bytes 16) (attempts : Nat) (result : WriteResult) :
    setup.Loose (.write bytes attempts result) := by
  unfold Child.write
  split
  · exact ⟨nofun, nofun⟩
  · exact ⟨nofun, nofun⟩
  · split
    · exact ⟨nofun, nofun⟩
    · exact ⟨nofun, nofun⟩
  · split
    · exact ⟨nofun, nofun⟩
    · exact ⟨nofun, nofun⟩

/-- What may change while the supervisor waits. -/
structure Passed (setup : Setup) (action : Action) (s s' : State) : Prop where
  supervisor_eq : s'.supervisor = s.supervisor
  readerOpen_eq : s'.readerOpen = s.readerOpen
  writerOpen_eq : s'.writerOpen = s.writerOpen
  now_le : s.now.nanos ≤ s'.now.nanos
  unborn : s.child = .unborn → s'.child = .unborn
  loose : setup.Loose s.child → setup.Loose s'.child
  gone : s.child = .gone → s'.child = .gone
  write?_eq : s.child = .unborn ∨ s.child = .gone → s.write? action = none

theorem passed_stepChild (setup : Setup) (result : WriteResult) (s : State) :
    Passed setup (.child result) s (setup.stepChild result s) := by
  obtain ⟨child, supervisor, pipe, readerOpen, writerOpen, now⟩ := s
  cases child with
  | unborn => exact ⟨rfl, rfl, rfl, Nat.le_refl _, id, id, id, fun _ ↦ rfl⟩
  | acting => exact ⟨rfl, rfl, rfl, Nat.le_refl _, nofun, fun _ ↦ loose_act setup, nofun, fun _ ↦ rfl⟩
  | writing bytes attempts =>
    refine ⟨rfl, rfl, rfl, Nat.le_refl _, nofun, fun _ ↦ loose_write setup bytes attempts result, nofun, ?_⟩
    rintro (heq | heq)
    · cases heq
    · cases heq
  | exiting status =>
    have hloose := loose_afterEnd setup (.exited status)
    exact ⟨rfl, rfl, rfl, Nat.le_refl _, nofun, fun _ ↦ hloose, nofun, fun _ ↦ rfl⟩
  | ended ending => exact ⟨rfl, rfl, rfl, Nat.le_refl _, id, id, id, fun _ ↦ rfl⟩
  | gone => exact ⟨rfl, rfl, rfl, Nat.le_refl _, id, id, id, fun _ ↦ rfl⟩

theorem passed_signal (setup : Setup) (number : Nat) (s : State) :
    Passed setup (.signal number) s (setup.step s (.signal number)) := by
  by_cases hrunning : s.child.isRunning
  · simp only [Setup.step, if_pos hrunning]
    refine ⟨rfl, rfl, rfl, Nat.le_refl _, fun heq ↦ ?_, fun _ ↦ loose_afterEnd setup _, fun heq ↦ ?_,
      fun _ ↦ rfl⟩
    · rw [heq] at hrunning
      cases hrunning
    · rw [heq] at hrunning
      cases hrunning
  · simp only [Setup.step, if_neg hrunning]
    exact ⟨rfl, rfl, rfl, Nat.le_refl _, id, id, id, fun _ ↦ rfl⟩

theorem passed_step (setup : Setup) {action : Action} (s : State)
    (hother : ∀ interrupted, action ≠ .supervisor interrupted) :
    Passed setup action s (setup.step s action) := by
  cases action with
  | child result => exact passed_stepChild setup result s
  | signal number => exact passed_signal setup number s
  | supervisor interrupted => exact absurd rfl (hother interrupted)
  | tick d =>
    obtain ⟨t, hle, ht⟩ := exists_step_tick setup s d
    rw [ht]
    exact ⟨rfl, rfl, rfl, hle, id, id, id, fun _ ↦ rfl⟩

/-- What a turn of the supervisor can do, and when. -/
inductive Turn (setup : Setup) (interrupted : Bool) (s : State) : State → Prop
  | noPipe {text : String} (hs : s.supervisor = .starting) (hfault : setup.pipeFault = some text) :
    Turn setup interrupted s { s with supervisor := .finished (.error (.io text)) }
  | makePipe (hs : s.supervisor = .starting) (hfault : setup.pipeFault = none) :
    Turn setup interrupted s { s with supervisor := .forking, readerOpen := true, writerOpen := true }
  | noChild {text : String} (hs : s.supervisor = .forking) (hfault : setup.forkFault = some text) :
    Turn setup interrupted s
      { s with supervisor := .finished (.error (.io text)), readerOpen := false, writerOpen := false }
  | makeChild (hs : s.supervisor = .forking) (hfault : setup.forkFault = none) :
    Turn setup interrupted s { s with supervisor := .launched, child := .acting }
  | due {deadline : Instant} (hs : s.supervisor = .launched)
    (hdue : s.now.add? setup.timeout = some deadline) :
    Turn setup interrupted s { s with supervisor := .polling deadline, writerOpen := false }
  | never (hs : s.supervisor = .launched) (hnever : s.now.add? setup.timeout = none) :
    Turn setup interrupted s { s with supervisor := .overflowed, writerOpen := false }
  | collect {deadline : Instant} {ending : Ending} (hs : s.supervisor = .polling deadline)
    (hchild : s.child = .ended ending) :
    Turn setup interrupted s { s with supervisor := .collected ending, child := .gone }
  | missing {deadline : Instant} (hs : s.supervisor = .polling deadline) (hchild : s.child = .gone) :
    Turn setup interrupted s { s with supervisor := .closing (.error (.io childMissing)) }
  | poll {deadline : Instant} (hs : s.supervisor = .polling deadline)
    (hchild : interrupted = false → s.child = .unborn ∨ s.child.isRunning) :
    Turn setup interrupted s { s with supervisor := .watching deadline }
  | late {deadline : Instant} (hs : s.supervisor = .watching deadline)
    (hlate : deadline.nanos ≤ s.now.nanos) : Turn setup interrupted s { s with supervisor := .killing }
  | early {deadline : Instant} (hs : s.supervisor = .watching deadline)
    (hearly : ¬ deadline.nanos ≤ s.now.nanos) :
    Turn setup interrupted s { s with supervisor := .polling deadline }
  | kill (hs : s.supervisor = .killing) :
    Turn setup interrupted s
      { s with supervisor := .closing (.error (.timedOut setup.timeout)), child := .gone }
  | report {ending : Ending} (hs : s.supervisor = .collected ending) :
    Turn setup interrupted s { s with supervisor := .closing (outcomeOf ending s.pipe) }
  | close {outcome : BenchOutcome} (hs : s.supervisor = .closing outcome) :
    Turn setup interrupted s { s with supervisor := .finished outcome, readerOpen := false }
  | rest (hs : (∃ outcome, s.supervisor = .finished outcome) ∨ s.supervisor = .overflowed) :
    Turn setup interrupted s s

theorem turn_poll {setup : Setup} {s : State} {deadline : Instant} (interrupted : Bool)
    (hs : s.supervisor = .polling deadline) :
    Turn setup interrupted s (setup.stepSupervisor interrupted s) := by
  obtain ⟨child, supervisor, pipe, readerOpen, writerOpen, t⟩ := s
  subst hs
  cases interrupted with
  | true => exact .poll rfl nofun
  | false =>
    cases child with
    | ended ending => exact .collect rfl rfl
    | gone => exact .missing rfl rfl
    | unborn => exact .poll rfl fun _ ↦ .inl rfl
    | acting | writing bytes attempts | exiting status => exact .poll rfl fun _ ↦ .inr rfl

theorem turn_launch {setup : Setup} {s : State} (interrupted : Bool)
    (hs : s.supervisor = .launched) :
    Turn setup interrupted s (setup.stepSupervisor interrupted s) := by
  -- The sum is a variable before anything is evaluated: with numerals as large as these it must not be.
  unfold Setup.stepSupervisor
  rw [hs]
  generalize hdue : s.now.add? setup.timeout = due
  cases due with
  | some deadline => exact .due hs hdue
  | none => exact .never hs hdue

theorem turn_stepSupervisor (setup : Setup) (interrupted : Bool) (s : State) :
    Turn setup interrupted s (setup.stepSupervisor interrupted s) := by
  cases hs : s.supervisor with
  | starting =>
    cases hfault : setup.pipeFault with
    | some text =>
      simp only [Setup.stepSupervisor, hs, hfault]
      exact .noPipe hs hfault
    | none =>
      simp only [Setup.stepSupervisor, hs, hfault]
      exact .makePipe hs hfault
  | forking =>
    cases hfault : setup.forkFault with
    | some text =>
      simp only [Setup.stepSupervisor, hs, hfault]
      exact .noChild hs hfault
    | none =>
      simp only [Setup.stepSupervisor, hs, hfault]
      exact .makeChild hs hfault
  | launched => exact turn_launch interrupted hs
  | polling deadline => exact turn_poll interrupted hs
  | watching deadline =>
    by_cases hlate : deadline.nanos ≤ s.now.nanos
    · simp only [Setup.stepSupervisor, hs, if_pos hlate]
      exact .late hs hlate
    · simp only [Setup.stepSupervisor, hs, if_neg hlate]
      exact .early hs hlate
  | killing =>
    simp only [Setup.stepSupervisor, hs]
    exact .kill hs
  | collected ending =>
    simp only [Setup.stepSupervisor, hs]
    exact .report hs
  | closing outcome =>
    simp only [Setup.stepSupervisor, hs]
    exact .close hs
  | finished outcome =>
    simp only [Setup.stepSupervisor, hs]
    exact .rest (.inl ⟨outcome, hs⟩)
  | overflowed =>
    simp only [Setup.stepSupervisor, hs]
    exact .rest (.inr hs)

end Hashwork.Isolation
