import Hashwork.Proofs.Selection.Sound

/-!
# One selection between two resets

From one reset to the next all callers agree on one algorithm.  A call that fails leaves the cell empty and
the lock free, and a later call can select then, whatever went wrong before.
-/

namespace Hashwork.Selection

section Failures

variable {candidates : List Algorithm} {rest : Selecting Reply} {caller : Nat} {holder : Option Nat}
  {history : History} {reply : Reply}

theorem Choosing.ne_done (h : Choosing candidates rest) : rest ≠ .done reply := by
  rintro rfl
  cases h

theorem Resolving.ne_done (h : Resolving candidates rest) : rest ≠ .done reply := by
  rintro rfl
  cases h

/-- A call fails by letting go of the lock while the cell is empty. -/
theorem Stage.fails {event : Event} {next : event.Answer → Selecting Reply} {answer : event.Answer}
    {fault : Fault} (h : Stage caller holder history (.ask event next))
    (hfails : next answer = .done (.resolved (.error fault))) :
    holder = some caller ∧ history.content = none ∧ (event = .release ∨ event = .abandon) := by
  cases h with
  | resolving _ _ h =>
    cases h with
    | read hfound hempty =>
      cases answer with
      | none => exact absurd hfails hempty.ne_done
      | some algorithm => cases (hfound algorithm).symm.trans hfails
    | acquire hfound hempty =>
      cases answer with
      | none => exact absurd hfails hempty.ne_done
      | some algorithm => cases (hfound algorithm).symm.trans hfails
  | choosing hheld _ hnone h =>
    cases h with
    | bench hok herror =>
      cases answer with
      | ok result => exact absurd hfails (hok result).ne_done
      | error breakdown => cases (herror breakdown).symm.trans hfails
    | note h => exact absurd hfails h.ne_done
    | write algorithm => cases hfails
    | nothing => exact ⟨hheld, hnone, .inl rfl⟩
  | abandoning hheld hnone => exact ⟨hheld, hnone, .inr rfl⟩
  | releasing hheld _ hempty => exact ⟨hheld, hempty fault (Routine.done.inj hfails), .inl rfl⟩
  | looking => cases hfails
  | resetting => cases hfails
  | emptying => cases hfails

end Failures

namespace Arena

variable {arena : Arena} {caller : Nat} {rest : Selecting Reply}

theorem exists_of_benchmarks? {algorithm : Algorithm}
    (h : arena.benchmarks? caller = some algorithm) :
    ∃ next, arena.calls caller = some (.ask (.bench algorithm) next) := by
  unfold benchmarks? at h
  split at h
  · next other next hcalls => exact ⟨next, Option.some.inj h ▸ hcalls⟩
  · cases h

theorem step_of_calls (processor : Processor) (result : Attempt BenchResult)
    (hcalls : arena.calls caller = some rest) :
    arena.step processor (.step caller result) = arena.advance caller result rest := by
  simp only [step, hcalls]

theorem advance_calls_of_ne {i : Nat} (result : Attempt BenchResult) (rest : Selecting Reply)
    (hne : caller ≠ i) : (arena.advance i result rest).calls caller = arena.calls caller := by
  match rest with
  | .ask .read next =>
    by_cases hnone : arena.holder = none
    · simp only [advance, if_pos hnone]
      exact goOn_calls_of_ne hne
    · simp only [advance, if_neg hnone]
  | .ask .acquire next =>
    by_cases hnone : arena.holder = none
    · simp only [advance, if_pos hnone]
      exact goOn_calls_of_ne hne
    · simp only [advance, if_neg hnone]
  | .done _ | .ask (.bench _) _ | .ask (.note _) _ | .ask (.write _) _ | .ask .release _
  | .ask .abandon _ => exact goOn_calls_of_ne hne

/-- A call ends with a step only if that goes on to its end. -/
theorem exists_next_of_advance {event : Event} {next : event.Answer → Selecting Reply}
    {result : Attempt BenchResult} {reply : Reply} (hcalls : arena.calls caller = some (.ask event next))
    (hdone : (arena.advance caller result (.ask event next)).calls caller = some (.done reply)) :
    ∃ answer, next answer = .done reply := by
  have hgoOn (answer : event.Answer)
      (h : (arena.goOn caller (some (next answer))).calls caller = some (.done reply)) :
      ∃ answer, next answer = .done reply :=
    ⟨answer, Option.some.inj (goOn_calls_self.symm.trans h)⟩
  cases event with
  | read =>
    by_cases hnone : arena.holder = none
    · simp only [advance, if_pos hnone] at hdone
      exact hgoOn arena.cell hdone
    · simp only [advance, if_neg hnone] at hdone
      cases hcalls.symm.trans hdone
  | acquire =>
    by_cases hnone : arena.holder = none
    · simp only [advance, if_pos hnone] at hdone
      exact hgoOn arena.cell hdone
    · simp only [advance, if_neg hnone] at hdone
      cases hcalls.symm.trans hdone
  | bench algorithm => exact hgoOn result hdone
  | note line => exact hgoOn () hdone
  | write content => exact hgoOn () hdone
  | release => exact hgoOn () hdone
  | abandon => exact hgoOn () hdone

/-- A call goes on only with the steps of its caller. -/
theorem calls_step_of_ne (processor : Processor) {action : Action}
    (hcalls : arena.calls caller = some rest) (hother : ∀ result, action ≠ .step caller result) :
    (arena.step processor action).calls caller = some rest := by
  cases action with
  | call i call =>
    cases hi : arena.calls i with
    | some _ => simp only [step, hi, hcalls]
    | none =>
      have hne : caller ≠ i := by
        rintro rfl
        cases hcalls.symm.trans hi
      simp only [step, hi]
      exact (goOn_calls_of_ne hne).trans hcalls
  | step i result =>
    have hne : caller ≠ i := fun heq ↦ hother result (heq ▸ rfl)
    cases hi : arena.calls i with
    | some other =>
      rw [step_of_calls processor result hi]
      exact (advance_calls_of_ne result other hne).trans hcalls
    | none => simp only [step, hi, hcalls]

theorem calls_run_of_others (processor : Processor) {others : List Action}
    (hcalls : arena.calls caller = some rest) (hothers : ∀ result, .step caller result ∉ others) :
    (arena.run processor others).calls caller = some rest := by
  induction others generalizing arena with
  | nil => exact hcalls
  | cons action others ih =>
    apply ih
    · apply calls_step_of_ne processor hcalls
      exact fun result heq ↦ hothers result (heq ▸ List.mem_cons_self)
    · exact fun result hmem ↦ hothers result (List.mem_cons_of_mem action hmem)

/-- So many steps of one caller, whose benchmarks come to these results. -/
def runAlone (processor : Processor) (arena : Arena) (caller : Nat) (results : Nat → BenchResult)
    (n : Nat) : Arena :=
  arena.run processor ((List.range n).map fun k ↦ .step caller (.ok (results k)))

/-- A call of a caller is over and has come to an algorithm, which is now in the cell. -/
structure Selected (arena : Arena) (caller : Nat) (algorithm : Algorithm) : Prop where
  cell_eq : arena.cell = some algorithm
  returned : arena.history.head? = some (caller, .returned (.resolved (.ok algorithm)))

/-- A call that selects after its next step selects. -/
theorem exists_selected_of_advance (processor : Processor) {results : Nat → BenchResult}
    (hcalls : arena.calls caller = some rest)
    (h : ∃ n algorithm, ((arena.advance caller (.ok (results 0)) rest).runAlone processor caller
      (fun k ↦ results (k + 1)) n).Selected caller algorithm) :
    ∃ n algorithm, (arena.runAlone processor caller results n).Selected caller algorithm := by
  obtain ⟨n, algorithm, hselected⟩ := h
  refine ⟨n + 1, algorithm, ?_⟩
  simp only [runAlone, run, List.range_succ_eq_map, List.map_cons, List.map_map, List.foldl_cons,
    step_of_calls processor _ hcalls]
  exact hselected

end Arena

/-- A call that has found the cell empty selects an algorithm if there is a candidate. -/
theorem Choosing.exists_selected {candidates : List Algorithm} {rest : Selecting Reply}
    (h : Choosing candidates rest) (hcandidates : candidates ≠ []) (processor : Processor)
    {arena : Arena} {caller : Nat} (hcalls : arena.calls caller = some rest)
    (results : Nat → BenchResult) :
    ∃ n algorithm, (arena.runAlone processor caller results n).Selected caller algorithm := by
  induction h generalizing arena results with
  | bench hok herror ih =>
    apply Arena.exists_selected_of_advance processor hcalls
    apply ih (results 0)
    exact Arena.goOn_calls_self
  | note h ih =>
    apply Arena.exists_selected_of_advance processor hcalls
    apply ih
    exact Arena.goOn_calls_self
  | write algorithm =>
    apply Arena.exists_selected_of_advance processor hcalls
    apply Arena.exists_selected_of_advance processor
    · exact Arena.goOn_calls_self
    apply Arena.exists_selected_of_advance processor
    · exact Arena.goOn_calls_self
    exact ⟨0, algorithm, rfl, rfl⟩
  | nothing hnone => exact absurd hnone hcandidates

/-- So does a call that has not got the lock yet, if the cell is empty and the lock is free. -/
theorem Resolving.exists_selected {candidates : List Algorithm} {rest : Selecting Reply}
    (h : Resolving candidates rest) (hcandidates : candidates ≠ []) (processor : Processor)
    {arena : Arena} {caller : Nat} (hcell : arena.cell = none) (hholder : arena.holder = none)
    (hcalls : arena.calls caller = some rest) (results : Nat → BenchResult) :
    ∃ n algorithm, (arena.runAlone processor caller results n).Selected caller algorithm := by
  induction h generalizing arena results with
  | read hfound hempty ih =>
    apply Arena.exists_selected_of_advance processor hcalls
    simp only [Arena.advance, if_pos hholder, hcell]
    apply ih
    · exact hcell
    · exact hholder
    · exact Arena.goOn_calls_self
  | acquire hfound hempty =>
    apply Arena.exists_selected_of_advance processor hcalls
    simp only [Arena.advance, if_pos hholder, hcell]
    apply hempty.exists_selected hcandidates
    exact Arena.goOn_calls_self

structure Agreeing (processor : Processor) (arena : Arena) : Prop where
  cell_eq : arena.cell = History.content arena.history
  orderly : History.Orderly arena.history
  /-- From one reset to the next all callers agree. -/
  exists_agreed : ∀ stretch, History.Period arena.history stretch →
    ∃ selected, History.Agreed stretch selected
  /-- A call that fails does so by letting go of the lock, and it leaves the cell empty. -/
  failed : ∀ caller result fault,
    (arena.step processor (.step caller result)).calls caller =
      some (.done (.resolved (.error fault))) →
    arena.holder = some caller ∧ (arena.step processor (.step caller result)).holder = none ∧
      (arena.step processor (.step caller result)).cell = none
  /-- A call whose benchmark is given up fails with its next step, and whatever others do before that, the
  cell stays empty. -/
  givenUp : ∀ caller algorithm breakdown others result,
    arena.benchmarks? caller = some algorithm → (∀ result, .step caller result ∉ others) →
    let later := (arena.step processor (.step caller (.error breakdown))).run processor others
    later.cell = none ∧
      (later.step processor (.step caller result)).calls caller =
        some (.done (.resolved (.error (.givenUp breakdown))))
  /-- While the cell is empty and the lock is free, a call that has a candidate and whose benchmarks have
  results selects an algorithm. -/
  selectable : ∀ caller choice candidates results, arena.cell = none → arena.holder = none →
    arena.calls caller = none → candidates ≠ [] →
    ∃ n algorithm, ((arena.step processor (.call caller (.resolve choice candidates))).runAlone
      processor caller results n).Selected caller algorithm

namespace Sound

variable {arena : Arena} {caller : Nat}

theorem exists_agreed (h : Sound arena) {stretch : History}
    (hperiod : History.Period arena.history stretch) : ∃ selected, History.Agreed stretch selected := by
  obtain ⟨later, earlier, hsplit, hstart⟩ := hperiod.exists_split
  have horderly := h.orderly
  rw [hsplit] at horderly
  apply History.exists_agreed horderly.of_append ?_ hperiod.kept
  rcases hstart with rfl | ⟨i, rest, rfl⟩
  · rfl
  · rfl

theorem failed (h : Sound arena) (processor : Processor) {result : Attempt BenchResult}
    {fault : Fault} (hfails : (arena.step processor (.step caller result)).calls caller =
      some (.done (.resolved (.error fault)))) :
    arena.holder = some caller ∧ (arena.step processor (.step caller result)).holder = none ∧
      (arena.step processor (.step caller result)).cell = none := by
  cases hcalls : arena.calls caller with
  | none =>
    simp only [Arena.step, hcalls] at hfails
    cases hfails
  | some rest =>
    rw [Arena.step_of_calls processor result hcalls] at hfails ⊢
    cases rest with
    | done reply =>
      cases Arena.goOn_calls_self.symm.trans hfails
    | ask event next =>
      obtain ⟨answer, hnext⟩ := Arena.exists_next_of_advance hcalls hfails
      obtain ⟨hheld, hempty, hevent⟩ := (h.stage caller _ hcalls).fails hnext
      have hcell : arena.cell = none := h.cell_eq.trans hempty
      rcases hevent with rfl | rfl
      · exact ⟨hheld, rfl, hcell⟩
      · exact ⟨hheld, rfl, hcell⟩

theorem givenUp (h : Sound arena) (processor : Processor) {algorithm : Algorithm}
    {breakdown : Breakdown} {others : List Arena.Action} {result : Attempt BenchResult}
    (hbench : arena.benchmarks? caller = some algorithm)
    (hothers : ∀ result, .step caller result ∉ others) :
    let later := (arena.step processor (.step caller (.error breakdown))).run processor others
    later.cell = none ∧
      (later.step processor (.step caller result)).calls caller =
        some (.done (.resolved (.error (.givenUp breakdown)))) := by
  intro later
  obtain ⟨next, hcalls⟩ := Arena.exists_of_benchmarks? hbench
  obtain ⟨-, -, hnext, -⟩ := (h.stage caller _ hcalls).bench
  have hstep : (arena.step processor (.step caller (.error breakdown))).calls caller =
      some (.ask .abandon fun _ ↦ .done (.resolved (.error (.givenUp breakdown)))) := by
    rw [Arena.step_of_calls processor _ hcalls, ← hnext]
    exact Arena.goOn_calls_self
  have hwaits := Arena.calls_run_of_others processor hstep hothers
  have hlater : Sound later := (h.step processor _).run processor others
  obtain ⟨-, hempty, -⟩ := (hlater.stage caller _ hwaits).abandon
  refine ⟨hlater.cell_eq.trans hempty, ?_⟩
  rw [Arena.step_of_calls processor result hwaits]
  exact Arena.goOn_calls_self

end Sound

theorem run_agreeing (processor : Processor) (actions : List Arena.Action) :
    Agreeing processor (Arena.fresh.run processor actions) := by
  have hsound : Sound (Arena.fresh.run processor actions) := Sound.fresh.run processor actions
  exact {
    cell_eq := hsound.cell_eq
    orderly := hsound.orderly
    exists_agreed := fun _ ↦ hsound.exists_agreed
    failed := fun _ _ _ ↦ hsound.failed processor
    givenUp := fun _ _ _ _ _ ↦ hsound.givenUp processor
    selectable := by
      intro caller choice candidates results hcell hholder hcalls hcandidates
      simp only [Arena.step, hcalls]
      apply (Resolving.routine processor choice candidates).exists_selected hcandidates
      · exact hcell
      · exact hholder
      · exact Arena.goOn_calls_self }

/-- After a benchmark that was given up the lock is marked, and the next caller selects all the same. -/
example (processor : Processor) (breakdown : Breakdown) :
    let steps (caller : Nat) : List Arena.Action :=
      List.replicate 6 (.step caller (.error breakdown))
    let arena := Arena.fresh.run processor <| .call 0 (.resolve .auto [.c]) :: steps 0 ++
      .call 1 (.resolve (.fixed .c) []) :: steps 1
    arena.marked = true ∧ arena.cell = some .c :=
  ⟨rfl, rfl⟩

end Hashwork.Selection
