import Hashwork.Proofs.Benchmark.Outcome

/-!
# The outcome is the deed's

A child that no signal ends comes to an end that its deed has for it, and so the outcome is one of the deed's,
unless the supervisor could not make the child, could not find it or lost patience.  It loses patience with a
child that it has found running.
-/

namespace Hashwork.Isolation

/-- The ends that a child comes to by itself, when these are its attempts to write. -/
inductive Deed.Completed (writes : List WriteResult) : Deed → Ending → Prop
  | written {sample : Sample} (h : .written ∈ writes) :
    Completed writes (.measured (some sample)) (.exited statusOk)
  | unwritten {sample : Sample} : Completed writes (.measured (some sample)) (.exited statusWriteFailed)
  | mismatch : Completed writes (.measured none) (.exited statusMismatch)
  | panicked : Completed writes .panics (.exited statusPanicked)
  | exited {status : Int} : Completed writes (.exits status) (.exited (status % 256).toNat)
  | killed {signal : Nat} : Completed writes (.dies signal) (.killed signal)

/-- The outcomes that a deed can have when nothing but the child decides it. -/
inductive Deed.Yields : Deed → BenchOutcome → Prop
  | sample {sample : Sample} : Yields (.measured (some sample)) (.ok sample.saturated)
  | unwritten {sample : Sample} :
    Yields (.measured (some sample)) (.error (.exited statusWriteFailed))
  | mismatch : Yields (.measured none) (.error .mismatch)
  | panicked : Yields .panics (.error (.exited statusPanicked))
  | exited {status : Int} : Yields (.exits status) (outcomeOf (.exited (status % 256).toNat) none)
  | killed {signal : Nat} : Yields (.dies signal) (.error (.crashed signal))

/-- How far a child has got with its deed. -/
inductive Setup.Obeyed (setup : Setup) (actions : List Action) (writes : List WriteResult) : Child → Prop
  | waiting {child : Child} (h : child = .unborn ∨ child = .acting ∨ child = .gone) :
    Obeyed setup actions writes child
  | writing {sample : Sample} {bytes : Bytes 16} {attempts : Nat}
    (hdeed : setup.deed = .measured (some sample)) : Obeyed setup actions writes (.writing bytes attempts)
  | exiting {status : Nat} (h : setup.deed.Completed writes (.exited status)) :
    Obeyed setup actions writes (.exiting status)
  | ended {ending : Ending} (h : setup.deed.Completed writes ending ∨
      ∃ number, .signal number ∈ actions ∧ ending = .killed number) :
    Obeyed setup actions writes (.ended ending)

section Runs

variable {setup : Setup} {now : Instant} {actions : List Action} {writes : List WriteResult} {child : Child}

theorem Deed.Completed.append {deed : Deed} {ending : Ending} (h : deed.Completed writes ending)
    (later : List WriteResult) : deed.Completed (writes ++ later) ending := by
  cases h with
  | written h => exact .written (List.mem_append_left later h)
  | unwritten => exact .unwritten
  | mismatch => exact .mismatch
  | panicked => exact .panicked
  | exited => exact .exited
  | killed => exact .killed

namespace Setup

theorem Obeyed.append (h : setup.Obeyed actions writes child) (action : Action)
    (later : List WriteResult) : setup.Obeyed (actions ++ [action]) (writes ++ later) child := by
  cases h with
  | waiting h => exact .waiting h
  | writing hdeed => exact .writing hdeed
  | exiting h => exact .exiting (h.append later)
  | ended h =>
    refine .ended (h.imp (·.append later) ?_)
    rintro ⟨number, hmem, heq⟩
    exact ⟨number, List.mem_append_left _ hmem, heq⟩

theorem obeyed_afterEnd {ending : Ending} (h : setup.deed.Completed writes ending ∨
    ∃ number, .signal number ∈ actions ∧ ending = .killed number) :
    setup.Obeyed actions writes (setup.afterEnd ending) := by
  unfold afterEnd
  split
  · exact .waiting (.inr (.inr rfl))
  · exact .ended h

theorem obeyed_act (setup : Setup) (actions : List Action) (writes : List WriteResult) :
    setup.Obeyed actions writes setup.act := by
  unfold act
  split <;> rename_i hdeed
  · split
    · exact .exiting (hdeed ▸ .unwritten)
    · exact .writing hdeed
  · exact .exiting (hdeed ▸ .mismatch)
  · exact .exiting (hdeed ▸ .panicked)
  · exact obeyed_afterEnd (.inl (hdeed ▸ .exited))
  · exact obeyed_afterEnd (.inl (hdeed ▸ .killed))
  · exact .waiting (.inr (.inl rfl))

theorem obeyed_write {sample : Sample} (hdeed : setup.deed = .measured (some sample)) (bytes : Bytes 16)
    (attempts : Nat) (result : WriteResult) :
    setup.Obeyed actions (writes ++ [result]) (.write bytes attempts result) := by
  have hdelay : setup.Obeyed actions (writes ++ [result])
      (if attempts ≤ 1 then .exiting statusWriteFailed else .writing bytes (attempts - 1)) := by
    split
    · exact .exiting (hdeed ▸ .unwritten)
    · exact .writing hdeed
  cases result with
  | written => exact .exiting (hdeed ▸ .written (List.mem_append_right _ (List.mem_singleton_self _)))
  | failed => exact .exiting (hdeed ▸ .unwritten)
  | wouldBlock => exact hdelay
  | interrupted => exact hdelay

/-- A step of the child gets it further with its deed. -/
theorem Obeyed.stepChild {s : State} (h : setup.Obeyed actions writes s.child) (result : WriteResult) :
    setup.Obeyed (actions ++ [.child result]) (writes ++ (s.write? (.child result)).toList)
      (setup.stepChild result s).child := by
  obtain ⟨child, supervisor, pipe, readerOpen, writerOpen, now⟩ := s
  cases child with
  | acting => exact obeyed_act setup _ _
  | writing bytes attempts =>
    cases h with
    | waiting h => rcases h with heq | heq | heq <;> cases heq
    | writing hdeed => exact obeyed_write hdeed bytes attempts result
  | exiting status =>
    cases h with
    | waiting h => rcases h with heq | heq | heq <;> cases heq
    | exiting h => exact obeyed_afterEnd (.inl (h.append _))
  | unborn | ended | gone => exact h.append _ _

/-- So does every other, except for a signal, which ends the child. -/
theorem Obeyed.step {s : State} (h : setup.Obeyed actions writes s.child) (action : Action) :
    setup.Obeyed (actions ++ [action]) (writes ++ (s.write? action).toList)
      (setup.step s action).child := by
  cases action with
  | child result => exact h.stepChild result
  | tick d =>
    obtain ⟨t, -, ht⟩ := exists_step_tick setup s d
    rw [ht]
    exact h.append _ _
  | signal number =>
    simp only [Setup.step]
    split
    · exact obeyed_afterEnd (.inr ⟨number, by simp, rfl⟩)
    · exact h.append _ _
  | supervisor interrupted =>
    have hturn := turn_stepSupervisor setup interrupted s
    change setup.Obeyed _ _ (setup.stepSupervisor interrupted s).child
    generalize setup.stepSupervisor interrupted s = s' at hturn ⊢
    cases hturn with
    | makeChild => exact .waiting (.inr (.inl rfl))
    | collect | kill => exact .waiting (.inr (.inr rfl))
    | noPipe | makePipe | noChild | due | never | missing | poll | late | early | report | close
    | rest => exact h.append _ _

theorem obeyed (setup : Setup) (now : Instant) (actions : List Action) :
    setup.Obeyed actions (setup.writes (.start now) actions) (setup.run now actions).child := by
  induction actions using List.reverseRecOn with
  | nil => exact .waiting (.inl rfl)
  | append_singleton actions action ih =>
    rw [run_concat, writes_concat]
    exact ih.step action

theorem writes_append (setup : Setup) (s : State) (actions later : List Action) :
    setup.writes s (actions ++ later) =
      setup.writes s actions ++ setup.writes (actions.foldl setup.step s) later := by
  induction actions generalizing s with
  | nil => rfl
  | cons action actions ih =>
    simp only [List.cons_append, writes, ih, List.append_assoc, List.foldl_cons]

/-- The end of a child is one that its deed has for it, or a signal has been sent. -/
theorem Reached.completed_or_signal {ending : Ending}
    (h : setup.Reached now actions fun s ↦ s.child = .ended ending) :
    setup.deed.Completed (setup.writes (.start now) actions) ending ∨
      ∃ number, .signal number ∈ actions ∧ ending = .killed number := by
  obtain ⟨before, after, rfl, hended⟩ := h
  have hobeyed := obeyed setup now before
  rw [hended] at hobeyed
  rw [writes_append]
  cases hobeyed with
  | waiting h => rcases h with heq | heq | heq <;> cases heq
  | ended h =>
    refine h.imp (·.append _) ?_
    rintro ⟨number, hmem, heq⟩
    exact ⟨number, List.mem_append_left after hmem, heq⟩

end Setup

/-- What an outcome comes of. -/
inductive Attributed (setup : Setup) (now : Instant) (actions : List Action) : BenchOutcome → Prop
  | deed {outcome : BenchOutcome} (h : setup.deed.Yields outcome) : Attributed setup now actions outcome
  | signal {number : Nat} (h : .signal number ∈ actions) :
    Attributed setup now actions (.error (.crashed number))
  | fault {text : String} (h : setup.pipeFault = some text ∨ setup.forkFault = some text) :
    Attributed setup now actions (.error (.io text))
  | missing (h : setup.reapsItself = true) : Attributed setup now actions (.error (.io childMissing))
  | timedOut (h : setup.Overran now actions) :
    Attributed setup now actions (.error (.timedOut setup.timeout))

theorem Deed.Completed.yields {deed : Deed} {ending : Ending} (h : deed.Completed writes ending)
    (hunwritten : ending = .exited statusOk → .written ∉ writes) :
    deed.Yields (outcomeOf ending none) := by
  cases h with
  | written h => exact absurd h (hunwritten rfl)
  | unwritten => exact .unwritten
  | mismatch => exact .mismatch
  | panicked => exact .panicked
  | exited => exact .exited
  | killed => exact .killed

theorem attributed_of_ended {ending : Ending}
    (hended : setup.Reached now actions fun s ↦ s.child = .ended ending)
    (hunwritten : ending = .exited statusOk → .written ∉ setup.writes (.start now) actions) :
    Attributed setup now actions (outcomeOf ending none) := by
  rcases hended.completed_or_signal with hcompleted | ⟨number, hmem, rfl⟩
  · exact .deed (hcompleted.yields hunwritten)
  · exact .signal hmem

theorem Setup.Explained.attributed {outcome : BenchOutcome} (h : setup.Explained now actions outcome) :
    Attributed setup now actions outcome := by
  cases h with
  | noPipe h => exact .fault (.inl h)
  | noChild _ h => exact .fault (.inr h)
  | sample hwrote => exact .deed (hwrote.deed_eq ▸ .sample)
  | noResult hwrites hended => exact attributed_of_ended hended fun _ ↦ hwrites
  | mismatch hended =>
    exact attributed_of_ended hended fun heq ↦ absurd (Ending.exited.inj heq) (by decide)
  | exited hok hmismatch hended =>
    have hattributed := attributed_of_ended hended fun heq ↦ absurd (Ending.exited.inj heq) hok
    simpa only [outcomeOf, if_neg hok, if_neg hmismatch] using hattributed
  | crashed hended => exact attributed_of_ended hended fun heq ↦ Ending.noConfusion heq
  | missing h => exact .missing h
  | timedOut h => exact .timedOut h

theorem explained_of_result? {outcome : BenchOutcome}
    (h : (setup.run now actions).result? = some (.outcome outcome)) :
    setup.Explained now actions outcome := by
  have hstage := (sound setup now actions).stage
  rw [finished_of_result? h] at hstage
  cases hstage with
  | finished h => exact h

/-- Whatever happens, an outcome is one of the deed's if no signal was sent and nothing else went wrong. -/
theorem attributed {outcome : BenchOutcome}
    (h : (setup.run now actions).result? = some (.outcome outcome)) :
    Attributed setup now actions outcome :=
  (explained_of_result? h).attributed

/-- A child that the supervisor has lost patience with was running when it looked for it. -/
theorem exists_isRunning_of_timedOut
    (h : (setup.run now actions).result? = some (.outcome (.error (.timedOut setup.timeout))))
    (huninterrupted : .supervisor true ∉ actions) :
    ∃ before after, actions = before ++ .supervisor false :: after ∧
      (∃ deadline, (setup.run now before).supervisor = .polling deadline) ∧
      (setup.run now before).child.isRunning := by
  cases explained_of_result? h with
  | timedOut h =>
    obtain ⟨deadline, earlier, later, rfl, -, hpolled, -⟩ := h
    obtain ⟨before, interrupted, after, rfl, hs, hrunning⟩ := hpolled
    cases interrupted with
    | true => exact absurd (by simp) huninterrupted
    | false => exact ⟨before, after ++ later, by simp, ⟨deadline, hs⟩, hrunning rfl⟩

end Runs

end Hashwork.Isolation
