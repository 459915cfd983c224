import Hashwork.Proofs.Routine.Propagation
import Hashwork.Proofs.Selection.Stage
import Hashwork.Selection.Alone

/-!
# What a choice is resolved to

A caller who is alone with an empty cell gets the algorithm that it has fixed, if the processor can run it,
and otherwise one of the candidates, of which there is at least one.  Only a benchmark that is given up leaves
it without an algorithm.
-/

namespace Hashwork

theorem Algorithm.mem_all (algorithm : Algorithm) : algorithm ∈ all := by
  cases algorithm <;> decide

theorem Processor.mem_candidates_iff {processor : Processor} {algorithm : Algorithm} :
    algorithm ∈ processor.candidates ↔
      algorithm.isAvailable processor = true ∧ algorithm.isSha256d = true := by
  simp only [candidates, available, List.mem_filter, algorithm.mem_all, true_and]

/-- Every processor can run the plain implementation. -/
theorem Processor.c_mem_candidates (processor : Processor) : .c ∈ processor.candidates :=
  mem_candidates_iff.mpr ⟨rfl, rfl⟩

namespace Selection

open Routine

variable {E : Type} {R : E → Type} {α β : Type}

section Alone

variable (bench : Algorithm → Routine E R (Attempt BenchResult)) (note : Log.Line → Routine E R Unit)

theorem alone_bind (r : Selecting α) (f : α → Selecting β) (content : Option Algorithm) :
    alone bench note (r.bind f) content =
      (alone bench note r content).bind fun p ↦ alone bench note (f p.1) p.2 := by
  induction r generalizing content with
  | done a => rfl
  | ask e next ih =>
    cases e with
    | read => exact ih content content
    | acquire => exact ih content content
    | bench algorithm =>
      change Routine.bind _ _ = Routine.bind (Routine.bind _ _) _
      rw [Routine.bind_assoc]
      exact congrArg _ (funext fun result ↦ ih result content)
    | note line =>
      change Routine.bind _ _ = Routine.bind (Routine.bind _ _) _
      rw [Routine.bind_assoc]
      exact congrArg _ (funext fun answer ↦ ih answer content)
    | write written => exact ih () written
    | release => exact ih () content
    | abandon => exact ih () content

/-- Benchmarking leaves the cell alone. -/
theorem alone_fastestOf (candidates : List Algorithm) (best : Option BenchResult)
    (content : Option Algorithm) :
    alone bench note (fastestOf (fun algorithm ↦ .ask (.bench algorithm) .done) candidates best)
        content =
      (fastestOf bench candidates best).bind fun attempt ↦ .done (attempt, content) := by
  induction candidates generalizing best with
  | nil => rfl
  | cons algorithm rest ih =>
    change Routine.bind _ _ = Routine.bind (Routine.bind _ _) _
    rw [Routine.bind_assoc]
    refine congrArg _ (funext fun attempt ↦ ?_)
    cases attempt with
    | ok result => exact ih (better best result)
    | error breakdown => rfl

/-- A fixed algorithm that the processor can run is selected at once. -/
theorem alone_resolve_fixed {processor : Processor} {algorithm : Algorithm}
    (havailable : algorithm.isAvailable processor = true) (candidates : List Algorithm) :
    alone bench note (resolve processor (.fixed algorithm) candidates) none =
      (note ⟨.info, "Using algorithm \"" ++ algorithm.name ++ "\""⟩).bind fun _ ↦
        .done (.ok algorithm, some algorithm) := by
  change alone bench note (select processor (.fixed algorithm) candidates) none = _
  unfold select
  dsimp only
  rw [if_pos havailable]
  rfl

end Alone

section Propagation

variable {broken : Exchange R → Prop} {breakdown : Breakdown}
  {bench : Algorithm → Routine E R (Attempt BenchResult)} {note : Log.Line → Routine E R Unit}

/-- Each benchmark ends in a result of its algorithm, or is given up because of a breakdown. -/
def Dependable (broken : Exchange R → Prop) (breakdown : Breakdown)
    (bench : Algorithm → Routine E R (Attempt BenchResult)) : Prop :=
  ∀ algorithm, Propagates broken (· = .error breakdown)
    (fun attempt ↦ ∃ result, attempt = .ok result ∧ result.algorithm = algorithm) (bench algorithm)

/-- What a choice is resolved to if there is no breakdown. -/
inductive Resolved (processor : Processor) (candidates : List Algorithm) : Choice → Algorithm → Prop
  | fixed {algorithm : Algorithm} (havailable : algorithm.isAvailable processor = true) :
    Resolved processor candidates (.fixed algorithm) algorithm
  | selected {choice : Choice} {algorithm : Algorithm} (hmem : algorithm ∈ candidates)
    (hfixed : ∀ fixed, choice = .fixed fixed → fixed.isAvailable processor = false) :
    Resolved processor candidates choice algorithm

/-- The better of two results is one of them. -/
theorem better_mem {best kept : Option BenchResult} {result : BenchResult}
    (h : better best result = kept) : kept = best ∨ kept = some result := by
  subst h
  unfold better
  split
  · split
    · exact .inl rfl
    · exact .inr rfl
  · exact .inr rfl

theorem propagates_fastestOf (hbench : Dependable broken breakdown bench) {pool : List Algorithm}
    {candidates : List Algorithm} {best : Option BenchResult} (hsubset : candidates ⊆ pool)
    (hbest : ∀ result, best = some result → result.algorithm ∈ pool)
    (hsome : candidates = [] → best ≠ none) :
    Propagates broken (· = .error breakdown)
      (fun attempt ↦ ∃ result, attempt = .ok (some result) ∧ result.algorithm ∈ pool)
      (fastestOf bench candidates best) := by
  -- The pool stays as it is, so that the best result may be of a candidate that is behind.
  induction candidates generalizing best with
  | nil =>
    cases best with
    | none => exact absurd rfl (hsome rfl)
    | some result => exact .done ⟨result, rfl, hbest result rfl⟩
  | cons algorithm rest ih =>
    obtain ⟨hmem, hrest⟩ := List.cons_subset.mp hsubset
    refine (hbench algorithm).bind ?_ ?_
    · rintro _ rfl
      exact ⟨_, rfl, rfl⟩
    · rintro _ ⟨result, rfl, rfl⟩
      obtain ⟨kept, hkept⟩ := exists_better_eq best result
      refine ih hrest ?_ ?_
      · intro other hother
        rcases better_mem rfl with heq | heq
        · exact hbest other (heq.symm.trans hother)
        · cases heq.symm.trans hother
          exact hmem
      · intro _ hnone
        cases hnone.symm.trans hkept

theorem propagates_selectByBenchmark (hbench : Dependable broken breakdown bench)
    (hnote : ∀ line, Quiet broken (note line)) {candidates : List Algorithm} (hne : candidates ≠ []) :
    Propagates broken (· = (.error (.givenUp breakdown), none))
      (fun p ↦ ∃ algorithm ∈ candidates, p = (.ok algorithm, some algorithm))
      (alone bench note (selectByBenchmark candidates) none) := by
  refine (hnote _).bind fun _ ↦ ?_
  rw [alone_bind]
  unfold selectFastest
  rw [alone_fastestOf, Routine.bind_assoc]
  have hbest : ∀ result : BenchResult, none = some result → result.algorithm ∈ candidates :=
    fun _ hnone ↦ by cases hnone
  refine (propagates_fastestOf hbench (List.Subset.refl candidates) hbest
    fun hnil ↦ absurd hnil hne).bind ?_ ?_
  · rintro _ rfl
    exact ⟨_, rfl, rfl⟩
  · rintro _ ⟨result, rfl, hmem⟩
    exact (hnote _).bind fun _ ↦ .done ⟨result.algorithm, hmem, rfl⟩

theorem propagates_resolve (hbench : Dependable broken breakdown bench)
    (hnote : ∀ line, Quiet broken (note line)) (processor : Processor) (choice : Choice)
    {candidates : List Algorithm} (hne : candidates ≠ []) :
    Propagates broken (· = (.error (.givenUp breakdown), none))
      (fun p ↦ ∃ algorithm, Resolved processor candidates choice algorithm ∧
        p = (.ok algorithm, some algorithm))
      (alone bench note (resolve processor choice candidates) none) := by
  have hselected (hfixed : ∀ fixed, choice = .fixed fixed → fixed.isAvailable processor = false) :
      Propagates broken (· = (.error (.givenUp breakdown), none))
        (fun p ↦ ∃ algorithm, Resolved processor candidates choice algorithm ∧
          p = (.ok algorithm, some algorithm))
        (alone bench note (selectByBenchmark candidates) none) :=
    (propagates_selectByBenchmark hbench hnote hne).mono (fun _ ↦ id)
      fun _ ⟨algorithm, hmem, hp⟩ ↦ ⟨algorithm, .selected hmem hfixed, hp⟩
  cases choice with
  | fixed algorithm =>
    by_cases havailable : algorithm.isAvailable processor = true
    · rw [alone_resolve_fixed bench note havailable]
      exact (hnote _).bind fun _ ↦ .done ⟨algorithm, .fixed havailable, rfl⟩
    · change Propagates _ _ _ (alone bench note (select processor (.fixed algorithm) candidates) none)
      unfold select
      dsimp only
      rw [if_neg havailable]
      refine (hnote _).bind fun _ ↦ hselected fun fixed heq ↦ ?_
      rw [← Choice.fixed.inj heq]
      exact Bool.eq_false_iff.mpr havailable
  | fastAuto => exact hselected nofun
  | auto => exact hselected nofun

end Propagation

/-- What a choice is resolved to can be run, and it is what was asked for if that can be run. -/
structure Usable (processor : Processor) (choice : Choice) (algorithm : Algorithm) : Prop where
  exists_kernel : ∃ kernel, algorithm.kernel? processor = some kernel
  isSha256d : choice ≠ .fixed .scrypt → algorithm.isSha256d = true
  eq_of_fixed : ∀ fixed, choice = .fixed fixed → fixed.isAvailable processor = true → algorithm = fixed

theorem Resolved.usable {processor : Processor} {choice : Choice} {algorithm : Algorithm}
    (h : Resolved processor processor.candidates choice algorithm) :
    Usable processor choice algorithm := by
  cases h with
  | fixed havailable =>
    refine ⟨Option.isSome_iff_exists.mp havailable, fun hne ↦ ?_, fun fixed heq _ ↦ ?_⟩
    · exact bne_iff_ne.mpr fun heq ↦ hne (congrArg Choice.fixed heq)
    · exact Choice.fixed.inj heq
  | selected hmem hfixed =>
    obtain ⟨havailable, hsha⟩ := Processor.mem_candidates_iff.mp hmem
    refine ⟨Option.isSome_iff_exists.mp havailable, fun _ ↦ hsha, fun fixed heq h ↦ ?_⟩
    cases h.symm.trans (hfixed fixed heq)

end Selection

end Hashwork
