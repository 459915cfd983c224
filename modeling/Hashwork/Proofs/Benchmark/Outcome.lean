import Hashwork.Proofs.Benchmark.Deadline

/-!
# Every isolated measurement is accounted for

An isolated measurement comes to a result.  What the result is depends on how the child has ended, unless the
supervisor has lost patience or could not make a child.
-/

namespace Hashwork.Isolation

section Ends

variable {setup : Setup} {now : Instant} {actions : List Action}

theorem Setup.Reached.of_concat {P : State → Prop} {action : Action}
    (h : setup.Reached now (actions ++ [action]) P) :
    setup.Reached now actions P ∨ P (setup.run now (actions ++ [action])) := by
  obtain ⟨before, after, heq, hP⟩ := h
  rcases List.eq_nil_or_concat after with rfl | ⟨after, last, rfl⟩
  · rw [List.append_nil] at heq
    exact .inr (heq ▸ hP)
  · rw [List.concat_eq_append, ← List.append_assoc] at heq
    exact .inl ⟨before, after, (List.append_inj' heq rfl).1, hP⟩

/-- What becomes of a child that has ended like this. -/
inductive Decided (setup : Setup) (ending : Ending) (s : State) : Prop
  | waiting (hchild : s.child = .ended ending)
  | killing (hs : s.supervisor = .killing)
  | collected (hchild : s.child = .gone) (hs : s.supervisor = .collected ending)
  | concluded {outcome : BenchOutcome} (hchild : s.child = .gone)
    (hs : s.supervisor = .closing outcome ∨ s.supervisor = .finished outcome)
    (houtcome : outcome = outcomeOf ending s.pipe ∨ outcome = .error (.timedOut setup.timeout))

theorem stopped_step {s : State} {child : Child} {action : Action} (hchild : s.child = child)
    (hstopped : child.isRunning = false) (hunborn : child ≠ .unborn)
    (hother : ∀ interrupted, action ≠ .supervisor interrupted) :
    (setup.step s action).child = child ∧ (setup.step s action).pipe = s.pipe := by
  cases action with
  | supervisor interrupted => exact absurd rfl (hother interrupted)
  | tick d =>
    obtain ⟨t, -, ht⟩ := exists_step_tick setup s d
    rw [ht]
    exact ⟨hchild, rfl⟩
  | child result =>
    cases child with
    | unborn => exact absurd rfl hunborn
    | acting | writing | exiting => cases hstopped
    | ended ending =>
      simp only [Setup.step, Setup.stepChild, hchild, and_self]
    | gone => simp only [Setup.step, Setup.stepChild, hchild, and_self]
  | signal number =>
    simp only [Setup.step, hchild, hstopped, Bool.false_eq_true, if_false, and_self]

theorem Decided.passed {ending : Ending} {s : State} {action : Action} (h : Decided setup ending s)
    (hother : ∀ interrupted, action ≠ .supervisor interrupted) :
    Decided setup ending (setup.step s action) := by
  have hsupervisor := (passed_step setup s hother).supervisor_eq
  cases h with
  | waiting hchild => exact .waiting (stopped_step hchild rfl nofun hother).1
  | killing hs => exact .killing (hsupervisor.trans hs)
  | collected hchild hs =>
    exact .collected (stopped_step hchild rfl nofun hother).1 (hsupervisor.trans hs)
  | concluded hchild hs houtcome =>
    obtain ⟨hgone, hpipe⟩ := stopped_step hchild rfl nofun hother
    rw [← hsupervisor] at hs
    rw [← hpipe] at houtcome
    exact .concluded hgone hs houtcome

theorem Decided.turn {ending : Ending} {s : State} (h : Decided setup ending s)
    (hforking : s.supervisor = .forking → s.child = .unborn) (interrupted : Bool) :
    Decided setup ending (setup.stepSupervisor interrupted s) := by
  cases h with
  | waiting hchild =>
    have hturn := turn_stepSupervisor setup interrupted s
    generalize setup.stepSupervisor interrupted s = s' at hturn ⊢
    cases hturn with
    | makeChild hs => cases hchild.symm.trans (hforking hs)
    | collect _ hended =>
      cases hchild.symm.trans hended
      exact .collected rfl rfl
    | kill => exact .concluded rfl (.inl rfl) (.inr rfl)
    | noPipe | makePipe | noChild | due | never | missing | poll | late | early | report | close
    | rest => exact .waiting hchild
  | killing hs =>
    simp only [Setup.stepSupervisor, hs]
    exact .concluded rfl (.inl rfl) (.inr rfl)
  | collected hchild hs =>
    simp only [Setup.stepSupervisor, hs]
    exact .concluded hchild (.inl rfl) (.inl rfl)
  | concluded hchild hs houtcome =>
    rcases hs with hs | hs
    · simp only [Setup.stepSupervisor, hs]
      exact .concluded hchild (.inr rfl) houtcome
    · simp only [Setup.stepSupervisor, hs]
      exact .concluded hchild (.inr hs) houtcome

theorem decided {ending : Ending} (h : setup.Reached now actions fun s ↦ s.child = .ended ending) :
    Decided setup ending (setup.run now actions) := by
  induction actions using List.reverseRecOn with
  | nil =>
    obtain ⟨before, after, heq, hended⟩ := h
    obtain ⟨rfl, rfl⟩ := List.nil_eq_append_iff.mp heq
    cases hended
  | append_singleton actions action ih =>
    rcases h.of_concat with hearlier | hended
    · have hdecided := ih hearlier
      rw [run_concat]
      cases action with
      | supervisor interrupted =>
        exact hdecided.turn (sound setup now actions).stage.unborn_of_forking interrupted
      | child result => exact hdecided.passed nofun
      | signal number => exact hdecided.passed nofun
      | tick d => exact hdecided.passed nofun
    · exact .waiting hended

end Ends

/-- What can be relied on when an isolated measurement has come to a result. -/
structure Accounted (setup : Setup) (now : Instant) (actions : List Action) : Prop where
  explained : ∀ outcome, (setup.run now actions).result? = some (.outcome outcome) →
    setup.Explained now actions outcome
  /-- A child's end leaves no choice, unless the supervisor has lost patience before. -/
  decided : ∀ outcome ending, (setup.run now actions).result? = some (.outcome outcome) →
    (setup.Reached now actions fun s ↦ s.child = .ended ending) →
      outcome = outcomeOf ending (setup.run now actions).pipe ∨
        outcome = .error (.timedOut setup.timeout)
  /-- Both ends of the pipe are closed, and there is no child. -/
  released : ∀ outcome, (setup.run now actions).result? = some (.outcome outcome) →
    (setup.run now actions).readerOpen = false ∧ (setup.run now actions).writerOpen = false ∧
      ((setup.run now actions).child = .unborn ∨ (setup.run now actions).child = .gone)
  overflowed : (setup.run now actions).result? = some .overflowed →
    setup.Reached now actions fun s ↦ s.supervisor = .launched ∧ s.now.add? setup.timeout = none

theorem supervisor_of_result? {s : State} {result : Result} (h : s.result? = some result) :
    (∃ outcome, result = .outcome outcome ∧ s.supervisor = .finished outcome) ∨
      result = .overflowed ∧ s.supervisor = .overflowed := by
  unfold State.result? at h
  generalize s.supervisor = supervisor at h ⊢
  cases supervisor with
  | finished outcome => exact .inl ⟨outcome, (Option.some.inj h).symm, rfl⟩
  | overflowed => exact .inr ⟨(Option.some.inj h).symm, rfl⟩
  | _ => cases h

theorem finished_of_result? {s : State} {outcome : BenchOutcome}
    (h : s.result? = some (.outcome outcome)) : s.supervisor = .finished outcome := by
  rcases supervisor_of_result? h with ⟨_, heq, hs⟩ | ⟨heq, -⟩
  · cases heq
    exact hs
  · cases heq

/-- Whatever the child does, however its attempts to write come out and whenever the supervisor looks, the outcome
is accounted for; and there is one, as long as the supervisor gets its turns and the clock goes on. -/
theorem accounted (setup : Setup) (now : Instant) :
    (∀ actions, Accounted setup now actions) ∧
      ∀ schedule, Fair setup now schedule → ∃ n, (setup.runTo now schedule n).result?.isSome := by
  refine ⟨fun actions ↦ ?_, fun schedule hfair ↦ exists_result hfair⟩
  have hstage := (sound setup now actions).stage
  refine { explained := ?_, decided := ?_, released := ?_, overflowed := ?_ }
  · intro outcome hresult
    rw [finished_of_result? hresult] at hstage
    cases hstage with
    | finished h => exact h
  · intro outcome ending hresult hended
    have hs := finished_of_result? hresult
    rw [hs] at hstage
    cases hstage with
    | finished _ hchild =>
      cases Isolation.decided hended with
      | waiting hended => rcases hchild with hchild | hchild <;> cases hended.symm.trans hchild
      | killing hother => cases hs.symm.trans hother
      | collected _ hother => cases hs.symm.trans hother
      | concluded _ hother houtcome =>
        rcases hother with hother | hother
        · cases hs.symm.trans hother
        · cases hs.symm.trans hother
          exact houtcome
  · intro outcome hresult
    rw [finished_of_result? hresult] at hstage
    cases hstage with
    | finished _ hchild hreader hwriter => exact ⟨hreader, hwriter, hchild⟩
  · intro hresult
    rcases supervisor_of_result? hresult with ⟨_, heq, -⟩ | ⟨-, hs⟩
    · cases heq
    · rw [hs] at hstage
      cases hstage with
      | overflowed h => exact h

/-- The supervisor and the clock in turns. -/
def alternating (n : Nat) : Action :=
  if n % 2 = 0 then .supervisor false else .tick (.ofNanos 1)

theorem fair_alternating (setup : Setup) (now : Instant) : Fair setup now alternating where
  supervised n := ⟨2 * n, Nat.le_mul_of_pos_left n Nat.two_pos, false, if_pos (Nat.mul_mod_right 2 n)⟩
  timed nanos := by
    refine ⟨2 * nanos, ?_⟩
    induction nanos with
    | zero => exact Nat.zero_le _
    | succ nanos ih =>
      have hodd : alternating (2 * nanos + 1) = .tick (.ofNanos 1) := if_neg (by omega)
      have hone : (Duration.ofNanos 1).totalNanos = 1 := Duration.totalNanos_ofNanos (by decide)
      rw [Nat.mul_succ, runTo_succ, hodd, now_tick, hone]
      exact Nat.succ_le_succ (ih.trans (now_runTo_mono setup now alternating (Nat.le_succ _)))

/-- The supervisor does not wait for ever for a child that hangs. -/
theorem exists_result_hanging : ∃ n, (Setup.runTo ⟨.hangs, .ofSeconds 60, 6, none, none, false⟩ ⟨0⟩
    alternating n).result?.isSome :=
  (accounted ⟨.hangs, .ofSeconds 60, 6, none, none, false⟩ ⟨0⟩).2 alternating (fair_alternating _ _)

end Hashwork.Isolation
