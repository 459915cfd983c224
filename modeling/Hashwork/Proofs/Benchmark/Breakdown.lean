import Hashwork.Benchmark.Harness
import Hashwork.Proofs.Benchmark.Outcome
import Hashwork.Proofs.Routine.Propagation

/-!
# When a benchmark breaks down

Once there is a child, the supervisor goes home only after it has learnt of the child's end: it has waited for
the child, or found it missing.  There is one exception.  A deadline that no clock can show is found out after
the child has been made; the supervisor then gives up at once, and so does the benchmark, and nobody has looked
for the child.
-/

namespace Hashwork

theorem Instant.add?_eq_none_iff (t : Instant) (d : Duration) :
    t.add? d = none ↔ limit ≤ t.nanos + d.totalNanos := by
  have hlimit : lastSecond < (t.nanos + d.totalNanos) / 1000000000 ↔
      limit ≤ t.nanos + d.totalNanos := Nat.le_div_iff_mul_le (by decide)
  rw [← hlimit, ← Nat.not_le]
  by_cases hle : (t.nanos + d.totalNanos) / 1000000000 ≤ lastSecond
  · simp only [add?, hle, if_true, reduceCtorEq, not_true]
  · simp only [add?, hle, if_false, not_false_eq_true]

namespace Isolation

/-- By its turn the supervisor learns of the child's end.  Either it waits for a child that it has killed, or it
looks, without being interrupted, for a child that has ended or that is not there any more. -/
def State.Learns (s : State) (interrupted : Bool) : Prop :=
  s.supervisor = .killing ∨
    (∃ deadline, s.supervisor = .polling deadline) ∧ interrupted = false ∧
      ((∃ ending, s.child = .ended ending) ∨ s.child = .gone)

/-- In a run the supervisor has learnt of the child's end. -/
def Setup.Noticed (setup : Setup) (now : Instant) (actions : List Action) : Prop :=
  ∃ before interrupted after, actions = before ++ .supervisor interrupted :: after ∧
    (setup.run now before).Learns interrupted

/-- The supervisor was about to set a deadline that no clock can show. -/
def Setup.NeverDue (setup : Setup) (now : Instant) (actions : List Action) : Prop :=
  setup.Reached now actions fun s ↦ s.supervisor = .launched ∧ s.now.add? setup.timeout = none

/-- The supervisor does not look for the child any more. -/
def Supervisor.HasLooked : Supervisor → Prop
  | .collected _ | .closing _ | .finished _ => True
  | .starting | .forking | .launched | .polling _ | .watching _ | .killing | .overflowed => False

variable {setup : Setup} {now : Instant} {actions : List Action}

theorem noticed_concat_iff {action : Action} :
    setup.Noticed now (actions ++ [action]) ↔ setup.Noticed now actions ∨
      ∃ interrupted, action = .supervisor interrupted ∧ (setup.run now actions).Learns interrupted := by
  constructor
  · rintro ⟨before, interrupted, after, heq, hlearns⟩
    rcases List.eq_nil_or_concat after with rfl | ⟨after, last, rfl⟩
    · obtain ⟨rfl, hlast⟩ := List.append_inj' heq rfl
      exact .inr ⟨interrupted, List.singleton_inj.mp hlast, hlearns⟩
    · rw [List.concat_eq_append, ← List.cons_append, ← List.append_assoc] at heq
      exact .inl ⟨before, interrupted, after, (List.append_inj' heq rfl).1, hlearns⟩
  · rintro (⟨before, interrupted, after, rfl, hlearns⟩ | ⟨interrupted, rfl, hlearns⟩)
    · exact ⟨before, interrupted, after ++ [action], by simp, hlearns⟩
    · exact ⟨actions, interrupted, [], rfl, hlearns⟩

theorem Passed.ne_unborn {action : Action} {s s' : State} (h : Passed setup action s s')
    (hborn : s.child ≠ .unborn) : s'.child ≠ .unborn := by
  by_cases hgone : s.child = .gone
  · rw [h.gone hgone]
    nofun
  · exact (h.loose ⟨hborn, fun heq ↦ absurd heq hgone⟩).ne_unborn

/-- A poll that the supervisor learns nothing from is followed by a look at the clock. -/
theorem hasLooked_poll {s : State} {deadline : Instant} (hs : s.supervisor = .polling deadline)
    (interrupted : Bool) :
    (setup.stepSupervisor interrupted s).supervisor.HasLooked ∧
        (setup.stepSupervisor interrupted s).child ≠ .unborn ↔ s.Learns interrupted := by
  obtain ⟨child, supervisor, pipe, readerOpen, writerOpen, t⟩ := s
  subst hs
  cases interrupted with
  | true => simp [Setup.stepSupervisor, State.Learns, Supervisor.HasLooked]
  | false => cases child <;> simp [Setup.stepSupervisor, State.Learns, Supervisor.HasLooked]

/-- If there is a child, the supervisor stops looking by a turn by which it learns of the child's end, or it
has stopped before. -/
theorem hasLooked_stepSupervisor {s : State}
    (hunborn : s.supervisor = .starting ∨ s.supervisor = .forking → s.child = .unborn)
    (interrupted : Bool) :
    (setup.stepSupervisor interrupted s).supervisor.HasLooked ∧
        (setup.stepSupervisor interrupted s).child ≠ .unborn ↔
      s.supervisor.HasLooked ∧ s.child ≠ .unborn ∨ s.Learns interrupted := by
  -- Apart from polls, where a turn leads does not depend on the child.
  by_cases hpolling : ∃ deadline, s.supervisor = .polling deadline
  · obtain ⟨deadline, hs⟩ := hpolling
    rw [hasLooked_poll hs, hs]
    exact (or_iff_right fun h ↦ h.1).symm
  · have hturn := turn_stepSupervisor setup interrupted s
    generalize setup.stepSupervisor interrupted s = s' at hturn ⊢
    cases hturn with
    | noPipe hs => simp [State.Learns, Supervisor.HasLooked, hs, hunborn (.inl hs)]
    | noChild hs => simp [State.Learns, Supervisor.HasLooked, hs, hunborn (.inr hs)]
    | makePipe hs | makeChild hs | due hs | never hs | late hs | early hs | kill hs | report hs
    | close hs =>
      simp [State.Learns, Supervisor.HasLooked, hs]
    | collect hs | missing hs | poll hs => exact absurd ⟨_, hs⟩ hpolling
    | rest hs =>
      rcases hs with ⟨outcome, hs⟩ | hs
      · simp [State.Learns, hs]
      · simp [State.Learns, hs]

theorem child_eq_unborn (setup : Setup) (now : Instant) (actions : List Action)
    (h : (setup.run now actions).supervisor = .starting ∨
      (setup.run now actions).supervisor = .forking) : (setup.run now actions).child = .unborn := by
  have hstage := (sound setup now actions).stage
  rcases h with hs | hs
  · rw [hs] at hstage
    cases hstage with
    | starting hchild => exact hchild
  · exact hstage.unborn_of_forking hs

/-- The supervisor has learnt of the child's end exactly if there is a child that it does not look for any
more. -/
theorem noticed_iff (setup : Setup) (now : Instant) (actions : List Action) :
    setup.Noticed now actions ↔
      (setup.run now actions).supervisor.HasLooked ∧ (setup.run now actions).child ≠ .unborn := by
  induction actions using List.reverseRecOn with
  | nil =>
    constructor
    · rintro ⟨before, interrupted, after, heq, -⟩
      cases (List.append_eq_nil_iff.mp heq.symm).2
    · rintro ⟨hlooked, -⟩
      exact hlooked.elim
  | append_singleton actions action ih =>
    -- Whatever is not a turn changes neither side.
    have hother (hother : ∀ interrupted, action ≠ .supervisor interrupted) :
        setup.Noticed now (actions ++ [action]) ↔
          (setup.run now (actions ++ [action])).supervisor.HasLooked ∧
            (setup.run now (actions ++ [action])).child ≠ .unborn := by
      have hpassed := passed_step setup (setup.run now actions) hother
      rw [noticed_concat_iff, run_concat, ih, hpassed.supervisor_eq,
        or_iff_left fun ⟨interrupted, heq, _⟩ ↦ hother interrupted heq]
      exact and_congr_right fun _ ↦ ⟨hpassed.ne_unborn, mt hpassed.unborn⟩
    cases action with
    | supervisor interrupted =>
      have hturn := @hasLooked_stepSupervisor setup _ (child_eq_unborn setup now actions) interrupted
      rw [noticed_concat_iff, run_concat, ih]
      refine Iff.trans (or_congr_right ?_) hturn.symm
      exact ⟨fun ⟨_, heq, hlearns⟩ ↦ (Action.supervisor.inj heq) ▸ hlearns, fun hlearns ↦
        ⟨interrupted, rfl, hlearns⟩⟩
    | child result => exact hother nofun
    | signal number => exact hother nofun
    | tick d => exact hother nofun

/-- A deadline that no clock can show never becomes one that it can. -/
theorem add?_eq_none_of_le {t t' : Instant} {d : Duration} (hle : t.nanos ≤ t'.nanos)
    (h : t.add? d = none) : t'.add? d = none := by
  rw [Instant.add?_eq_none_iff] at h ⊢
  exact h.trans (Nat.add_le_add_right hle _)

theorem now_le_step (setup : Setup) (s : State) (action : Action) :
    s.now.nanos ≤ (setup.step s action).now.nanos := by
  rcases passed_or_turn setup s action with h | ⟨interrupted, h⟩
  · exact h.now_le
  · rw [h.now_eq]

theorem now_le_run (setup : Setup) (now : Instant) (actions : List Action) :
    now.nanos ≤ (setup.run now actions).now.nanos := by
  induction actions using List.reverseRecOn with
  | nil => exact Nat.le_refl _
  | append_singleton actions action ih =>
    rw [run_concat]
    exact ih.trans (now_le_step setup _ action)

theorem Turn.overflowed {interrupted : Bool} {s s' : State} (h : Turn setup interrupted s s')
    (hnever : s.now.add? setup.timeout = none)
    (hs : s.supervisor = .launched ∨ s.supervisor = .overflowed) : s'.supervisor = .overflowed := by
  cases h with
  | never => rfl
  | due _ hdue => cases hdue.symm.trans hnever
  | rest hrest =>
    rcases hs with hs | hs
    · rcases hrest with ⟨outcome, hother⟩ | hother <;> cases hs.symm.trans hother
    · exact hs
  | noPipe hother | makePipe hother | noChild hother | makeChild hother | collect hother | missing hother
  | poll hother | late hother | early hother | kill hother | report hother | close hother =>
    rcases hs with hs | hs <;> cases hs.symm.trans hother

theorem stepSupervisor_never {s : State} (interrupted : Bool) (hs : s.supervisor = .launched)
    (hnever : s.now.add? setup.timeout = none) :
    setup.stepSupervisor interrupted s = { s with supervisor := .overflowed, writerOpen := false } := by
  unfold Setup.stepSupervisor
  rw [hs]
  generalize s.now.add? setup.timeout = due at hnever ⊢
  subst hnever
  rfl

/-- The supervisor comes to nothing else any more. -/
theorem doomed (h : setup.NeverDue now actions) :
    (setup.run now actions).now.add? setup.timeout = none ∧
      ((setup.run now actions).supervisor = .launched ∨
        (setup.run now actions).supervisor = .overflowed) := by
  induction actions using List.reverseRecOn with
  | nil =>
    obtain ⟨before, after, heq, hlaunched, -⟩ := h
    obtain ⟨rfl, rfl⟩ := List.append_eq_nil_iff.mp heq.symm
    cases hlaunched
  | append_singleton actions action ih =>
    rcases h.of_concat with hearlier | ⟨hlaunched, hnever⟩
    · obtain ⟨hnever, hs⟩ := ih hearlier
      rw [run_concat]
      refine ⟨add?_eq_none_of_le (now_le_step setup _ action) hnever, ?_⟩
      rcases passed_or_turn setup (setup.run now actions) action with hpassed | ⟨interrupted, hturn⟩
      · rwa [hpassed.supervisor_eq]
      · exact .inr (hturn.overflowed hnever hs)
    · exact ⟨hnever, .inl hlaunched⟩

/-- If there is a child, the supervisor has launched it. -/
theorem reached_launched (hborn : (setup.run now actions).child ≠ .unborn) :
    setup.Reached now actions fun s ↦ s.supervisor = .launched := by
  induction actions using List.reverseRecOn with
  | nil => exact absurd rfl hborn
  | append_singleton actions action ih =>
    by_cases hchild : (setup.run now actions).child = .unborn
    · have hstage := (sound setup now actions).stage
      have hrun : setup.run now (actions ++ [action]) = setup.step (setup.run now actions) action :=
        run_concat _
      rcases passed_or_turn setup (setup.run now actions) action with hpassed | ⟨interrupted, hturn⟩
      · rw [hrun] at hborn
        exact absurd (hpassed.unborn hchild) hborn
      · rw [← hrun] at hturn
        generalize hs' : setup.run now (actions ++ [action]) = s' at hturn hborn
        cases hturn with
        | makeChild => exact .of_run (congrArg State.supervisor hs')
        | collect _ hended => cases hchild.symm.trans hended
        -- It kills only when it has overrun a deadline, which it set after the launch.
        | kill hs =>
          rw [hs] at hstage
          cases hstage with
          | killing hover =>
            obtain ⟨deadline, before, after, rfl, ⟨earlier, later, rfl, hlaunched, -⟩, -⟩ := hover
            exact ⟨earlier, later ++ after ++ [action], by simp, hlaunched⟩
        | noPipe | makePipe | noChild | due | never | missing | poll | late | early | report | close
        | rest => exact absurd hchild hborn
    · exact (ih hchild).append [action]

/-- What an isolated measurement that has come to a result has left behind. -/
structure Concluded (setup : Setup) (now : Instant) (actions : List Action) (result : Result) :
    Prop where
  /-- The measurement was given up because of its deadline, and for no other reason. -/
  overflowed_iff : result = .overflowed ↔ setup.NeverDue now actions
  /-- The end of a child has been noticed unless the measurement was given up. -/
  noticed_iff : (setup.run now actions).child ≠ .unborn →
    (setup.Noticed now actions ↔ result ≠ .overflowed)
  /-- The timeout has to be that long, or the measurement is not given up. -/
  limit_le : result = .overflowed →
    Instant.limit ≤ (setup.run now actions).now.nanos + setup.timeout.totalNanos
  /-- If it is that long from the start, the measurement is given up as soon as there is a child. -/
  overflowed : (setup.run now actions).child ≠ .unborn →
    Instant.limit ≤ now.nanos + setup.timeout.totalNanos → result = .overflowed

theorem concluded {result : Result} (h : (setup.run now actions).result? = some result) :
    Concluded setup now actions result := by
  have hlooked := noticed_iff setup now actions
  have hoverflowed : result = .overflowed ↔ setup.NeverDue now actions := by
    rcases supervisor_of_result? h with ⟨outcome, rfl, hs⟩ | ⟨rfl, hs⟩
    · refine ⟨nofun, fun hnever ↦ ?_⟩
      rcases (doomed hnever).2 with hother | hother <;> cases hs.symm.trans hother
    · have hstage := (sound setup now actions).stage
      rw [hs] at hstage
      cases hstage with
      | overflowed hnever => exact ⟨fun _ ↦ hnever, fun _ ↦ rfl⟩
  refine { overflowed_iff := hoverflowed, noticed_iff := ?_, limit_le := ?_, overflowed := ?_ }
  · intro hborn
    rw [hlooked, and_iff_left hborn]
    rcases supervisor_of_result? h with ⟨outcome, rfl, hs⟩ | ⟨rfl, hs⟩
    · rw [hs]
      exact ⟨fun _ ↦ nofun, fun _ ↦ trivial⟩
    · rw [hs]
      exact ⟨False.elim, fun hne ↦ hne rfl⟩
  · intro heq
    exact (Instant.add?_eq_none_iff _ _).mp (doomed (hoverflowed.mp heq)).1
  · intro hborn hlimit
    obtain ⟨before, after, heq, hlaunched⟩ := reached_launched hborn
    have hnever := (Instant.add?_eq_none_iff _ _).mpr hlimit
    exact hoverflowed.mpr
      ⟨before, after, heq, hlaunched, add?_eq_none_of_le (now_le_run setup now before) hnever⟩

/-- What can be relied on from the beginning. -/
structure Supervised (setup : Setup) (now : Instant) : Prop where
  exists_result : ∀ schedule, Fair setup now schedule →
    ∃ n, (setup.runTo now schedule n).result?.isSome
  concluded : ∀ actions result, (setup.run now actions).result? = some result →
    Concluded setup now actions result

theorem supervised (setup : Setup) (now : Instant) : Supervised setup now where
  exists_result _ := exists_result
  concluded _ _ := concluded

end Isolation

namespace Harness

open Routine

/-- An isolated measurement was given up. -/
def IsBreakdown : Exchange Event.Answer → Prop
  | ⟨.isolate _ _, .overflowed⟩ => True
  | _ => False

def GivenUp (t : List (Exchange Event.Answer)) : Prop := ∃ exchange ∈ t, IsBreakdown exchange

/-- A benchmark has a result unless the measurement was given up. -/
theorem propagates_benchmark (harness : Harness) (processor : Processor) (algorithm : Algorithm)
    (mode : BenchMode) : Propagates IsBreakdown (· = .error ⟨Isolation.overflowMessage⟩)
      (fun attempt ↦ ∃ outcome, attempt = .ok (BenchResult.ofOutcome algorithm outcome))
      (harness.benchmark processor algorithm mode) := by
  have hconclude (outcome : BenchOutcome) :
      Propagates IsBreakdown (· = .error ⟨Isolation.overflowMessage⟩)
        (fun attempt ↦ ∃ outcome, attempt = .ok (BenchResult.ofOutcome algorithm outcome))
        (conclude algorithm outcome) :=
    .ask_safe (fun _ ↦ id) fun _ ↦ .done ⟨outcome, rfl⟩
  unfold benchmark
  split
  · exact hconclude _
  · refine .ask_safe (fun _ ↦ id) fun _ ↦ ?_
    split
    · refine .ask fun result ↦ ?_
      cases result with
      | outcome outcome => exact .inr ⟨id, hconclude outcome⟩
      | overflowed => exact .inl ⟨trivial, _, rfl, rfl⟩
    · exact .ask_safe (fun _ ↦ id) fun sample ↦ hconclude _

theorem exists_trace_overflowed {processor : Processor} {algorithm : Algorithm} {kernel : Kernel}
    (harness : Harness) (mode : BenchMode)
    (hkernel : algorithm.kernel? processor = some kernel) (hisolated : harness.isIsolated algorithm) :
    ∃ line, Trace (harness.benchmark processor algorithm mode)
      [⟨.note line, ()⟩, ⟨.isolate kernel mode, .overflowed⟩]
      (.error ⟨Isolation.overflowMessage⟩) := by
  unfold benchmark
  rw [hkernel]
  dsimp only
  rw [if_pos hisolated]
  exact ⟨_, trace_ask_iff.mpr ⟨(), _, rfl, trace_ask_iff.mpr ⟨.overflowed, [], rfl, .done _⟩⟩⟩

/-- An isolated measurement with the limits of this harness, on whatever system. -/
def setupOn (harness : Harness) (deed : Isolation.Deed) (pipeFault forkFault : Option String)
    (reapsItself : Bool) : Isolation.Setup :=
  { harness.setup deed with
    pipeFault := pipeFault
    forkFault := forkFault
    reapsItself := reapsItself }

/-- Whatever is configured, an isolated measurement comes to a result, whatever the child does, and a benchmark
ends whatever is answered.  It has a result of its own unless the measurement was given up. -/
theorem benchmark_ends (config : BenchConfig) :
    (∀ deed pipeFault forkFault reapsItself now,
      Isolation.Supervised ((ofConfig config).setupOn deed pipeFault forkFault reapsItself) now) ∧
      ∀ processor algorithm mode,
        (∀ answer : (e : Event) → e.Answer, ∃ t attempt,
          Trace ((ofConfig config).benchmark processor algorithm mode) t attempt ∧
            ∀ exchange ∈ t, exchange.2 = answer exchange.1) ∧
          ∀ t attempt, Trace ((ofConfig config).benchmark processor algorithm mode) t attempt →
            GivenUp t ∧ attempt = .error ⟨Isolation.overflowMessage⟩ ∨
              ¬ GivenUp t ∧ ∃ outcome, attempt = .ok (BenchResult.ofOutcome algorithm outcome) := by
  refine ⟨fun _ _ _ _ now ↦ Isolation.supervised _ now, fun processor algorithm mode ↦
    ⟨fun answer ↦ ?_, propagates_benchmark (ofConfig config) processor algorithm mode⟩⟩
  obtain ⟨t, htrace, hanswers⟩ := exists_trace_run_answer answer
    ((ofConfig config).benchmark processor algorithm mode)
  exact ⟨t, _, htrace, hanswers⟩

/-- Every measurement fails, in a child that panics if it is an isolated one. -/
def failingAnswer : (e : Event) → e.Answer
  | .note _ => ()
  | .measure _ _ => none
  | .isolate _ _ => .outcome (.error (.exited Isolation.statusPanicked))

/-- A child that panics is noticed, and the benchmark has a result. -/
theorem noticed_panicking :
    (∃ n, (((ofConfig .standard).setupOn .panics none none false).runTo ⟨0⟩ Isolation.alternating
        n).result?.isSome) ∧
      ((ofConfig .standard).setupOn .panics none none false).Noticed ⟨0⟩
        (((ofConfig .standard).setup .panics).plainSchedule .written) ∧
      ∃ t outcome, Trace ((ofConfig .standard).benchmark ⟨fun _ ↦ true, 1⟩ .fourWay .quick) t
        (.ok (BenchResult.ofOutcome .fourWay outcome)) := by
  have hsupervised := (benchmark_ends .standard).1 .panics none none false ⟨0⟩
  obtain ⟨hexists, hends⟩ := (benchmark_ends .standard).2 ⟨fun _ ↦ true, 1⟩ .fourWay .quick
  refine ⟨hsupervised.exists_result _ (Isolation.fair_alternating _ _), ?_, ?_⟩
  · have hconcluded := hsupervised.concluded (((ofConfig .standard).setup .panics).plainSchedule .written)
      (.outcome (.error (.exited Isolation.statusPanicked))) rfl
    have hgone : (((ofConfig .standard).setupOn .panics none none false).run ⟨0⟩
        (((ofConfig .standard).setup .panics).plainSchedule .written)).child = .gone := rfl
    refine (hconcluded.noticed_iff ?_).mpr nofun
    rw [hgone]
    nofun
  · obtain ⟨t, attempt, htrace, hanswers⟩ := hexists failingAnswer
    rcases hends t attempt htrace with ⟨hgivenUp, -⟩ | ⟨-, outcome, rfl⟩
    · obtain ⟨⟨e, answer⟩, hmem, hbroken⟩ := hgivenUp
      obtain rfl : answer = failingAnswer e := hanswers _ hmem
      cases e with
      | _ => exact hbroken.elim
    · exact ⟨t, outcome, htrace⟩

/-- The longest timeout that can be configured. -/
def longest : BenchConfig := ⟨18446744073709551615, false⟩

/-- With the longest timeout an isolated measurement is given up as soon as there is a child, which nobody
has looked for, and the benchmark with it. -/
theorem exists_breakdown_longest :
    (((ofConfig longest).setup .panics).run ⟨0⟩
        [.supervisor false, .supervisor false, .supervisor false]).result? = some .overflowed ∧
      (((ofConfig longest).setup .panics).run ⟨0⟩
        [.supervisor false, .supervisor false, .supervisor false]).child = .acting ∧
      ¬ ((ofConfig longest).setup .panics).Noticed ⟨0⟩
        [.supervisor false, .supervisor false, .supervisor false] ∧
      ∃ line, Trace ((ofConfig longest).benchmark ⟨fun _ ↦ true, 1⟩ .fourWay .quick)
        [⟨.note line, ()⟩, ⟨.isolate (.sha256d .packed4By4) .quick, .overflowed⟩]
        (.error ⟨Isolation.overflowMessage⟩) := by
  have hrun : ((ofConfig longest).setup .panics).run ⟨0⟩ [.supervisor false, .supervisor false] =
      { Isolation.State.start ⟨0⟩ with
        child := .acting, supervisor := .launched, readerOpen := true, writerOpen := true } := rfl
  have hsupervisor := congrArg Isolation.State.supervisor hrun
  have hnever : (((ofConfig longest).setup .panics).run ⟨0⟩
      [.supervisor false, .supervisor false]).now.add? ((ofConfig longest).setup .panics).timeout =
        none := by
    rw [hrun, Instant.add?_eq_none_iff]
    decide
  -- The third turn is not evaluated, since its sum does not fit the clock.
  have hlast : ((ofConfig longest).setup .panics).run ⟨0⟩
        ([.supervisor false, .supervisor false] ++ [.supervisor false]) =
      { Isolation.State.start ⟨0⟩ with
        child := .acting, supervisor := .overflowed, readerOpen := true, writerOpen := false } := by
    rw [Isolation.run_concat]
    refine (Isolation.stepSupervisor_never false hsupervisor hnever).trans ?_
    rw [hrun]
  have hresult := congrArg Isolation.State.result? hlast
  have hchild := congrArg Isolation.State.child hlast
  refine ⟨hresult, hchild, ?_, exists_trace_overflowed (ofConfig longest) .quick rfl rfl⟩
  intro hnoticed
  refine ((Isolation.concluded hresult).noticed_iff ?_).mp hnoticed rfl
  rw [hchild]
  nofun

end Harness

end Hashwork
