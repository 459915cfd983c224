import Hashwork.Proofs.Benchmark.Account

/-!
# What gets into the pipe

The child writes nothing but the sample that it has measured, and only as long as it has attempts left.
Nobody takes out of the pipe what is in it before the child's end has been taken notice of.
-/

namespace Hashwork.Isolation

/-- The child makes no more attempts to write. -/
def Child.HasTried : Child → Prop
  | .exiting _ | .ended _ | .gone => True
  | .unborn | .acting | .writing .. => False

/-- How far the child has got, after these attempts to write, and what is in the pipe. -/
inductive Piped (setup : Setup) : List WriteResult → Child → Option (Bytes 16) → Prop
  | idle {child : Child} (hchild : child = .unborn ∨ child = .acting) : Piped setup [] child none
  | writing {writes : List WriteResult} {sample : Sample} {attempts : Nat}
    (hdeed : setup.deed = .measured (some sample))
    (hdelays : ∀ result ∈ writes, result = .wouldBlock ∨ result = .interrupted)
    (hattempts : writes.length + attempts = setup.writeAttempts) (hpos : 0 < attempts) :
    Piped setup writes (.writing sample.encode attempts) none
  | empty {writes : List WriteResult} {child : Child} (hchild : child.HasTried)
    (hwrites : .written ∉ writes) : Piped setup writes child none
  | sample {writes : List WriteResult} {child : Child} {sample : Sample} (hchild : child.HasTried)
    (hwrote : setup.Wrote writes sample) : Piped setup writes child (some sample.encode)

theorem hasTried_afterEnd (setup : Setup) (ending : Ending) :
    (setup.afterEnd ending).HasTried := by
  unfold Setup.afterEnd
  split <;> trivial

namespace Piped

variable {setup : Setup} {writes : List WriteResult} {child : Child} {pipe : Option (Bytes 16)}

theorem not_written {results : List WriteResult}
    (h : ∀ result ∈ results, result = .wouldBlock ∨ result = .interrupted) : .written ∉ results := by
  intro hmem
  rcases h _ hmem with heq | heq
  · cases heq
  · cases heq

/-- However a child is stopped, what is in the pipe stays there. -/
theorem stop {child' : Child} (h : Piped setup writes child pipe) (hchild : child'.HasTried) :
    Piped setup writes child' pipe := by
  cases h with
  | idle => exact .empty hchild List.not_mem_nil
  | writing _ hdelays => exact .empty hchild (not_written hdelays)
  | empty _ hwrites => exact .empty hchild hwrites
  | sample _ hwrote => exact .sample hchild hwrote

theorem act (setup : Setup) : Piped setup [] setup.act none := by
  unfold Setup.act
  split
  · next sample hdeed =>
    by_cases hnone : setup.writeAttempts = 0
    · rw [if_pos hnone]
      exact .empty trivial List.not_mem_nil
    · rw [if_neg hnone]
      exact .writing hdeed (fun _ hmem ↦ absurd hmem List.not_mem_nil) (Nat.zero_add _)
        (Nat.pos_of_ne_zero hnone)
  · exact .empty trivial List.not_mem_nil
  · exact .empty trivial List.not_mem_nil
  · exact .empty (hasTried_afterEnd setup _) List.not_mem_nil
  · exact .empty (hasTried_afterEnd setup _) List.not_mem_nil
  · exact .idle (.inr rfl)

theorem write {sample : Sample} {attempts : Nat} (result : WriteResult)
    (hdeed : setup.deed = .measured (some sample))
    (hdelays : ∀ result ∈ writes, result = .wouldBlock ∨ result = .interrupted)
    (hattempts : writes.length + attempts = setup.writeAttempts) (hpos : 0 < attempts) :
    Piped setup (writes ++ [result]) (.write sample.encode attempts result)
      (if result = .written then some sample.encode else none) := by
  have hdelay (hresult : result = .wouldBlock ∨ result = .interrupted) :
      Piped setup (writes ++ [result])
        (if attempts ≤ 1 then .exiting statusWriteFailed
          else .writing sample.encode (attempts - 1)) none := by
    have hall : ∀ r ∈ writes ++ [result], r = .wouldBlock ∨ r = .interrupted := by
      intro r hmem
      rcases List.mem_append.mp hmem with hmem | hmem
      · exact hdelays r hmem
      · rw [List.mem_singleton.mp hmem]
        exact hresult
    by_cases hlast : attempts ≤ 1
    · rw [if_pos hlast]
      exact .empty trivial (not_written hall)
    · rw [if_neg hlast]
      refine .writing hdeed hall ?_ ?_
      · rw [List.length_append, List.length_singleton]
        omega
      · omega
  cases result with
  | written => exact .sample trivial ⟨hdeed, writes, rfl, hdelays, by omega⟩
  | failed =>
    refine .empty trivial fun hmem ↦ ?_
    rcases List.mem_append.mp hmem with hmem | hmem
    · exact not_written hdelays hmem
    · cases List.mem_singleton.mp hmem
  | wouldBlock => exact hdelay (.inl rfl)
  | interrupted => exact hdelay (.inr rfl)

end Piped

theorem Piped.stepChild {setup : Setup} {writes : List WriteResult} {s : State}
    (result : WriteResult) (h : Piped setup writes s.child s.pipe) :
    Piped setup (writes ++ (s.write? (.child result)).toList) (setup.stepChild result s).child
      (setup.stepChild result s).pipe := by
  obtain ⟨child, supervisor, pipe, readerOpen, writerOpen, now⟩ := s
  cases child with
  | unborn => exact (List.append_nil writes).symm ▸ h
  | acting =>
    cases h with
    | idle => exact Piped.act setup
    | empty hchild => exact hchild.elim
    | sample hchild => exact hchild.elim
  | writing bytes attempts =>
    cases h with
    | idle hchild => rcases hchild with heq | heq <;> cases heq
    | writing hdeed hdelays hattempts hpos => exact write result hdeed hdelays hattempts hpos
    | empty hchild => exact hchild.elim
    | sample hchild => exact hchild.elim
  | exiting status =>
    exact (List.append_nil writes).symm ▸ h.stop (hasTried_afterEnd setup (.exited status))
  | ended ending => exact (List.append_nil writes).symm ▸ h
  | gone => exact (List.append_nil writes).symm ▸ h

theorem Piped.signal {setup : Setup} {writes : List WriteResult} {s : State} (number : Nat)
    (h : Piped setup writes s.child s.pipe) :
    Piped setup writes (setup.step s (.signal number)).child
      (setup.step s (.signal number)).pipe := by
  by_cases hrunning : s.child.isRunning
  · simp only [Setup.step, if_pos hrunning]
    exact h.stop (hasTried_afterEnd setup (.killed number))
  · simp only [Setup.step, if_neg hrunning]
    exact h

/-- The child's steps, signals and the clock leave the pipe as the child's attempts have left it. -/
theorem Piped.step {setup : Setup} {writes : List WriteResult} {s : State} {action : Action}
    (h : Piped setup writes s.child s.pipe) (hother : ∀ interrupted, action ≠ .supervisor interrupted) :
    Piped setup (writes ++ (s.write? action).toList) (setup.step s action).child
      (setup.step s action).pipe := by
  cases action with
  | child result => exact h.stepChild result
  | signal number => exact (List.append_nil writes).symm ▸ h.signal number
  | supervisor interrupted => exact absurd rfl (hother interrupted)
  | tick d =>
    obtain ⟨t, -, ht⟩ := exists_step_tick setup s d
    rw [ht]
    exact (List.append_nil writes).symm ▸ h

/-- What the end of a child that has tried to write means. -/
theorem explained_outcomeOf {setup : Setup} {now : Instant} {actions : List Action}
    {writes : List WriteResult} {ending : Ending} {pipe : Option (Bytes 16)}
    (hwrites : setup.writes (.start now) actions = writes) (h : Piped setup writes .gone pipe)
    (hended : setup.Reached now actions fun s ↦ s.child = .ended ending) :
    setup.Explained now actions (outcomeOf ending pipe) := by
  cases ending with
  | killed signal => exact .crashed hended
  | exited status =>
    by_cases hok : status = statusOk
    · subst hok
      cases h with
      | idle hchild => rcases hchild with heq | heq <;> cases heq
      | empty _ hnot => exact .noResult (hwrites ▸ hnot) hended
      | @sample _ _ sample _ hwrote =>
        have houtcome : outcomeOf (.exited statusOk) (some sample.encode) = .ok sample.saturated :=
          congrArg Except.ok sample.decode_encode
        rw [houtcome]
        exact .sample (hwrites ▸ hwrote) hended
    · by_cases hmismatch : status = statusMismatch
      · subst hmismatch
        exact .mismatch hended
      · simp only [outcomeOf, if_neg hok, if_neg hmismatch]
        exact .exited hok hmismatch hended

end Hashwork.Isolation
