import Hashwork.Proofs.Benchmark.Turn
import Mathlib.Data.List.Induction

/-!
# What the supervisor has seen

At each point the supervisor has good reasons to be there.  When it has an outcome, what explains the
outcome has happened, both ends of the pipe are closed, and nothing is left of the child.
-/

namespace Hashwork.Isolation

/-- Where the supervisor is, and what it has done for that. -/
inductive Stage (setup : Setup) (now : Instant) (actions : List Action) (s : State) :
    Supervisor → Prop
  | starting (hchild : s.child = .unborn) (hreader : s.readerOpen = false)
    (hwriter : s.writerOpen = false) : Stage setup now actions s .starting
  | forking (hpipe : setup.pipeFault = none) (hchild : s.child = .unborn) :
    Stage setup now actions s .forking
  | launched (hchild : setup.Loose s.child) : Stage setup now actions s .launched
  | polling {deadline : Instant} (hdue : setup.Due now actions deadline)
    (hchild : setup.Loose s.child) (hwriter : s.writerOpen = false) :
    Stage setup now actions s (.polling deadline)
  | watching {deadline : Instant} (hdue : setup.Due now actions deadline)
    (hpolled : setup.Polled now actions deadline) (hchild : setup.Loose s.child)
    (hwriter : s.writerOpen = false) : Stage setup now actions s (.watching deadline)
  | killing (hover : setup.Overran now actions) (hwriter : s.writerOpen = false) :
    Stage setup now actions s .killing
  | collected {ending : Ending}
    (hended : setup.Reached now actions fun s ↦ s.child = .ended ending) (hchild : s.child = .gone)
    (hwriter : s.writerOpen = false) : Stage setup now actions s (.collected ending)
  | closing {outcome : BenchOutcome} (h : setup.Explained now actions outcome)
    (hchild : s.child = .gone) (hwriter : s.writerOpen = false) :
    Stage setup now actions s (.closing outcome)
  | finished {outcome : BenchOutcome} (h : setup.Explained now actions outcome)
    (hchild : s.child = .unborn ∨ s.child = .gone) (hreader : s.readerOpen = false)
    (hwriter : s.writerOpen = false) : Stage setup now actions s (.finished outcome)
  | overflowed (h : setup.Reached now actions fun s ↦
      s.supervisor = .launched ∧ s.now.add? setup.timeout = none) :
    Stage setup now actions s .overflowed

structure Sound (setup : Setup) (now : Instant) (actions : List Action) : Prop where
  piped : Piped setup (setup.writes (.start now) actions) (setup.run now actions).child
    (setup.run now actions).pipe
  stage : Stage setup now actions (setup.run now actions) (setup.run now actions).supervisor

/-- While the supervisor waits it stays where it is. -/
theorem Stage.passed {setup : Setup} {now : Instant} {actions : List Action} {action : Action}
    {supervisor : Supervisor} {s s' : State} (h : Stage setup now actions s supervisor)
    (hpassed : Passed setup action s s') (hs : setup.run now actions = s) :
    Stage setup now (actions ++ [action]) s' supervisor := by
  have hwrites (hchild : s.child = .unborn ∨ s.child = .gone) :
      setup.writes (.start now) (actions ++ [action]) = setup.writes (.start now) actions := by
    rw [writes_concat]
    change _ ++ ((setup.run now actions).write? action).toList = _
    rw [hs, hpassed.write?_eq hchild]
    exact List.append_nil _
  have hwriter' (hwriter : s.writerOpen = false) : s'.writerOpen = false :=
    hpassed.writerOpen_eq.trans hwriter
  have hreader' (hreader : s.readerOpen = false) : s'.readerOpen = false :=
    hpassed.readerOpen_eq.trans hreader
  cases h with
  | starting hchild hreader hwriter =>
    exact .starting (hpassed.unborn hchild) (hreader' hreader) (hwriter' hwriter)
  | forking hpipe hchild => exact .forking hpipe (hpassed.unborn hchild)
  | launched hchild => exact .launched (hpassed.loose hchild)
  | polling hdue hchild hwriter =>
    exact .polling (hdue.append _) (hpassed.loose hchild) (hwriter' hwriter)
  | watching hdue hpolled hchild hwriter =>
    exact .watching (hdue.append _) (hpolled.append _) (hpassed.loose hchild) (hwriter' hwriter)
  | killing hover hwriter => exact .killing (hover.append _) (hwriter' hwriter)
  | collected hended hchild hwriter =>
    exact .collected (hended.append _) (hpassed.gone hchild) (hwriter' hwriter)
  | closing h hchild hwriter =>
    exact .closing (h.append (hwrites (.inr hchild))) (hpassed.gone hchild) (hwriter' hwriter)
  | finished h hchild hreader hwriter =>
    exact .finished (h.append (hwrites hchild)) (hchild.imp hpassed.unborn hpassed.gone)
      (hreader' hreader) (hwriter' hwriter)
  | overflowed h => exact .overflowed (h.append _)

theorem Stage.unborn_of_forking {setup : Setup} {now : Instant} {actions : List Action} {s : State}
    (h : Stage setup now actions s s.supervisor) (hforking : s.supervisor = .forking) :
    s.child = .unborn := by
  rw [hforking] at h
  cases h with
  | forking _ hchild => exact hchild

/-- The supervisor leaves what is in the pipe, and a child that it takes notice of writes no more. -/
theorem Piped.turn {setup : Setup} {writes : List WriteResult} {interrupted : Bool} {s s' : State}
    (h : Piped setup writes s.child s.pipe) (hturn : Turn setup interrupted s s')
    (hforking : s.supervisor = .forking → s.child = .unborn) :
    Piped setup writes s'.child s'.pipe := by
  cases hturn with
  | makeChild hs =>
    rw [hforking hs] at h
    generalize s.pipe = pipe at h ⊢
    cases h with
    | idle => exact .idle (.inr rfl)
    | empty hchild => exact hchild.elim
    | sample hchild => exact hchild.elim
  | collect | kill => exact h.stop trivial
  | noPipe | makePipe | noChild | due | never | missing | poll | late | early | report | close
  | rest => exact h

section Turns

variable {setup : Setup} {now deadline : Instant} {actions : List Action} {interrupted : Bool} {s : State}

theorem writes_turn : setup.writes (.start now) (actions ++ [.supervisor interrupted]) =
    setup.writes (.start now) actions :=
  (writes_concat _ _).trans (List.append_nil _)

namespace Stage

/-! ### Turns before there is a child -/

theorem noPipe {text : String} (h : Stage setup now actions s .starting)
    (hfault : setup.pipeFault = some text) :
    Stage setup now (actions ++ [.supervisor interrupted])
      { s with supervisor := .finished (.error (.io text)) } (.finished (.error (.io text))) := by
  cases h with
  | starting hchild hreader hwriter =>
    exact .finished (.noPipe hfault) (.inl hchild) hreader hwriter

theorem makePipe (h : Stage setup now actions s .starting) (hfault : setup.pipeFault = none) :
    Stage setup now (actions ++ [.supervisor interrupted])
      { s with supervisor := .forking, readerOpen := true, writerOpen := true } .forking := by
  cases h with
  | starting hchild => exact .forking hfault hchild

theorem noChild {text : String} (h : Stage setup now actions s .forking)
    (hfault : setup.forkFault = some text) :
    Stage setup now (actions ++ [.supervisor interrupted])
      { s with supervisor := .finished (.error (.io text)), readerOpen := false, writerOpen := false }
      (.finished (.error (.io text))) := by
  cases h with
  | forking hpipe hchild => exact .finished (.noChild hpipe hfault) (.inl hchild) rfl rfl

theorem due (h : Stage setup now actions s .launched)
    (hdue : setup.Due now (actions ++ [.supervisor interrupted]) deadline) :
    Stage setup now (actions ++ [.supervisor interrupted])
      { s with supervisor := .polling deadline, writerOpen := false } (.polling deadline) := by
  cases h with
  | launched hchild => exact .polling hdue hchild rfl

/-! ### Looks for the child's end -/

theorem collect {ending : Ending} (h : Stage setup now actions s (.polling deadline))
    (hended : setup.Reached now (actions ++ [.supervisor interrupted]) fun s ↦
      s.child = .ended ending) :
    Stage setup now (actions ++ [.supervisor interrupted])
      { s with supervisor := .collected ending, child := .gone } (.collected ending) := by
  cases h with
  | polling _ _ hwriter => exact .collected hended rfl hwriter

theorem missing (h : Stage setup now actions s (.polling deadline)) (hchild : s.child = .gone)
    (hgone : setup.Reached now (actions ++ [.supervisor interrupted]) fun s ↦
      s.child = .gone ∧ ∃ deadline, s.supervisor = .polling deadline) :
    Stage setup now (actions ++ [.supervisor interrupted])
      { s with supervisor := .closing (.error (.io childMissing)) }
      (.closing (.error (.io childMissing))) := by
  cases h with
  | polling _ hloose hwriter =>
    exact .closing (.missing (hloose.reapsItself hchild) hgone) hchild hwriter

theorem poll (h : Stage setup now actions s (.polling deadline)) (hs : setup.run now actions = s)
    (hpolling : s.supervisor = .polling deadline)
    (hrunning : interrupted = false → s.child = .unborn ∨ s.child.isRunning) :
    Stage setup now (actions ++ [.supervisor interrupted]) { s with supervisor := .watching deadline }
      (.watching deadline) := by
  cases h with
  | polling hdue hloose hwriter =>
    refine .watching (hdue.append _) ⟨actions, interrupted, [], rfl, ?_, ?_⟩ hloose hwriter
    · rw [hs]
      exact hpolling
    · intro hpolled
      rw [hs]
      exact (hrunning hpolled).resolve_left hloose.ne_unborn

/-! ### Looks at the clock -/

theorem late (h : Stage setup now actions s (.watching deadline)) (hs : setup.run now actions = s)
    (hwatching : s.supervisor = .watching deadline) (hlate : deadline.nanos ≤ s.now.nanos) :
    Stage setup now (actions ++ [.supervisor interrupted]) { s with supervisor := .killing }
      .killing := by
  subst hs
  cases h with
  | watching hdue hpolled _ hwriter =>
    exact .killing ⟨deadline, actions, _, rfl, hdue, hpolled, hwatching, hlate⟩ hwriter

theorem early (h : Stage setup now actions s (.watching deadline)) :
    Stage setup now (actions ++ [.supervisor interrupted]) { s with supervisor := .polling deadline }
      (.polling deadline) := by
  cases h with
  | watching hdue _ hloose hwriter => exact .polling (hdue.append _) hloose hwriter

/-! ### Turns after the child's end -/

theorem kill (h : Stage setup now actions s .killing) :
    Stage setup now (actions ++ [.supervisor interrupted])
      { s with supervisor := .closing (.error (.timedOut setup.timeout)), child := .gone }
      (.closing (.error (.timedOut setup.timeout))) := by
  cases h with
  | killing hover hwriter => exact .closing (.timedOut (hover.append _)) rfl hwriter

theorem report {ending : Ending} (h : Stage setup now actions s (.collected ending))
    (hpiped : Piped setup (setup.writes (.start now) actions) s.child s.pipe) :
    Stage setup now (actions ++ [.supervisor interrupted])
      { s with supervisor := .closing (outcomeOf ending s.pipe) } (.closing (outcomeOf ending s.pipe)) := by
  cases h with
  | collected hended hchild hwriter =>
    rw [hchild] at hpiped
    exact .closing (explained_outcomeOf writes_turn hpiped (hended.append _)) hchild hwriter

theorem close {outcome : BenchOutcome} (h : Stage setup now actions s (.closing outcome)) :
    Stage setup now (actions ++ [.supervisor interrupted])
      { s with supervisor := .finished outcome, readerOpen := false } (.finished outcome) := by
  cases h with
  | closing h hchild hwriter => exact .finished (h.append writes_turn) (.inr hchild) rfl hwriter

theorem rest {supervisor : Supervisor} (h : Stage setup now actions s supervisor)
    (hrest : (∃ outcome, supervisor = .finished outcome) ∨ supervisor = .overflowed) :
    Stage setup now (actions ++ [.supervisor interrupted]) s supervisor := by
  rcases hrest with ⟨outcome, rfl⟩ | rfl
  · cases h with
    | finished h hchild hreader hwriter => exact .finished (h.append writes_turn) hchild hreader hwriter
  · cases h with
    | overflowed h => exact .overflowed (h.append _)

end Stage

/-- Every turn leads to a point where the supervisor has good reasons to be. -/
theorem Stage.turn {s' : State} (h : Stage setup now actions s s.supervisor)
    (hs : setup.run now actions = s)
    (hpiped : Piped setup (setup.writes (.start now) actions) s.child s.pipe)
    (hturn : Turn setup interrupted s s') :
    Stage setup now (actions ++ [.supervisor interrupted]) s' s'.supervisor := by
  have hmoment (P : State → Prop) (hP : P s) :
      setup.Reached now (actions ++ [.supervisor interrupted]) P :=
    (Setup.Reached.of_run (hs ▸ hP)).append _
  cases hturn with
  | rest hrest => exact h.rest hrest
  | makeChild => exact .launched ⟨nofun, nofun⟩
  | never hlaunched hnever => exact .overflowed (hmoment _ ⟨hlaunched, hnever⟩)
  | noPipe hs' hfault =>
    rw [hs'] at h
    exact h.noPipe hfault
  | makePipe hs' hfault =>
    rw [hs'] at h
    exact h.makePipe hfault
  | noChild hs' hfault =>
    rw [hs'] at h
    exact h.noChild hfault
  | due hlaunched hdue =>
    rw [hlaunched] at h
    exact h.due (hmoment _ ⟨hlaunched, hdue⟩)
  | collect hpolling hchild =>
    rw [hpolling] at h
    exact h.collect (hmoment _ hchild)
  | @missing deadline hpolling hchild =>
    rw [hpolling] at h
    exact h.missing hchild (hmoment _ ⟨hchild, deadline, hpolling⟩)
  | poll hpolling hrunning =>
    rw [hpolling] at h
    exact h.poll hs hpolling hrunning
  | late hwatching hlate =>
    rw [hwatching] at h
    exact h.late hs hwatching hlate
  | early hwatching =>
    rw [hwatching] at h
    exact h.early
  | kill hkilling =>
    rw [hkilling] at h
    exact h.kill
  | report hcollected =>
    rw [hcollected] at h
    exact h.report hpiped
  | close hclosing =>
    rw [hclosing] at h
    exact h.close

end Turns

theorem Sound.supervisor {setup : Setup} {now : Instant} {actions : List Action}
    (h : Sound setup now actions) (interrupted : Bool) :
    Sound setup now (actions ++ [.supervisor interrupted]) := by
  have hturn := turn_stepSupervisor setup interrupted (setup.run now actions)
  constructor
  · rw [run_concat, writes_turn]
    exact h.piped.turn hturn h.stage.unborn_of_forking
  · rw [run_concat]
    exact h.stage.turn rfl h.piped hturn

theorem Sound.start (setup : Setup) (now : Instant) : Sound setup now [] where
  piped := .idle (.inl rfl)
  stage := .starting rfl rfl rfl

theorem Sound.passed {setup : Setup} {now : Instant} {actions : List Action} {action : Action}
    (h : Sound setup now actions) (hother : ∀ interrupted, action ≠ .supervisor interrupted) :
    Sound setup now (actions ++ [action]) := by
  have hpassed := passed_step setup (setup.run now actions) hother
  constructor
  · rw [run_concat, writes_concat]
    exact h.piped.step hother
  · rw [run_concat, hpassed.supervisor_eq]
    exact h.stage.passed hpassed rfl

/-- Every run is sound, whatever steps are taken and in whatever order. -/
theorem sound (setup : Setup) (now : Instant) (actions : List Action) :
    Sound setup now actions := by
  induction actions using List.reverseRecOn with
  | nil => exact .start setup now
  | append_singleton actions action ih =>
    cases action with
    | supervisor interrupted => exact ih.supervisor interrupted
    | child result => exact ih.passed nofun
    | signal number => exact ih.passed nofun
    | tick d => exact ih.passed nofun

end Hashwork.Isolation
