import Hashwork.Proofs.Benchmark.Rate
import Hashwork.Proofs.Selection.Stage
import Mathlib.Data.List.Induction

/-!
# The fastest is the first of the fastest

Of results with equal rates the first is kept.  A benchmark that failed has a rate below that of every sample,
so it is kept only if all benchmarks failed, and then it was the first.
-/

namespace Hashwork.Selection

open Binary64

section Results

variable {results : List BenchResult} {best result : BenchResult}

/-- One of the fastest results, and the first of these. -/
def IsFirstFastest (results : List BenchResult) (best : BenchResult) : Prop :=
  ∃ earlier later, results = earlier ++ best :: later ∧
    (∀ result ∈ earlier, result.rate < best.rate) ∧ ∀ result ∈ later, result.rate ≤ best.rate

theorem fastest_concat (results : List BenchResult) (result : BenchResult) :
    fastest (results ++ [result]) = better (fastest results) result :=
  List.foldl_concat ..

theorem fastest_eq_none_iff (results : List BenchResult) : fastest results = none ↔ results = [] := by
  constructor
  · intro hnone
    rcases List.eq_nil_or_concat results with rfl | ⟨earlier, result, rfl⟩
    · rfl
    · obtain ⟨kept, hkept⟩ := exists_better_eq (fastest earlier) result
      rw [List.concat_eq_append, fastest_concat, hkept] at hnone
      cases hnone
  · rintro rfl
    rfl

theorem IsFirstFastest.place_le (h : IsFirstFastest results best)
    (hnumbers : ∀ result ∈ results, result.rate.isNaN = false) :
    ∀ result ∈ results, place result.rate ≤ place best.rate := by
  obtain ⟨earlier, later, rfl, hearlier, hlater⟩ := h
  have hbest := hnumbers best (by simp)
  intro result hmem
  have hnumber := hnumbers result hmem
  rcases List.mem_append.mp hmem with hmem | hmem
  · exact ((lt_iff_place_lt hnumber hbest).mp (hearlier result hmem)).le
  · rcases List.mem_cons.mp hmem with rfl | hmem
    · exact le_refl _
    · exact (le_iff_place_le hnumber hbest).mp (hlater result hmem)

/-- A result that is not faster comes too late. -/
theorem IsFirstFastest.keep (h : IsFirstFastest results best) (hle : result.rate ≤ best.rate) :
    IsFirstFastest (results ++ [result]) best := by
  obtain ⟨earlier, later, rfl, hearlier, hlater⟩ := h
  refine ⟨earlier, later ++ [result], by simp, hearlier, ?_⟩
  exact List.forall_mem_append.mpr ⟨hlater, List.forall_mem_singleton.mpr hle⟩

theorem IsFirstFastest.replace (h : IsFirstFastest results best)
    (hnumbers : ∀ other ∈ results ++ [result], other.rate.isNaN = false)
    (hnot : ¬ result.rate ≤ best.rate) : IsFirstFastest (results ++ [result]) result := by
  obtain ⟨hnumbers, hnumber⟩ := List.forall_mem_append.mp hnumbers
  rw [List.forall_mem_singleton] at hnumber
  have hbest : best.rate.isNaN = false := by
    obtain ⟨earlier, later, rfl, -⟩ := h
    exact hnumbers best (by simp)
  rw [le_iff_place_le hnumber hbest, not_le] at hnot
  refine ⟨results, [], rfl, fun other hmem ↦ ?_, List.forall_mem_nil _⟩
  apply (lt_iff_place_lt (hnumbers other hmem) hnumber).mpr
  exact (h.place_le hnumbers other hmem).trans_lt hnot

theorem isFirstFastest_fastest (hnumbers : ∀ result ∈ results, result.rate.isNaN = false)
    (hbest : fastest results = some best) : IsFirstFastest results best := by
  induction results using List.reverseRecOn generalizing best with
  | nil => cases hbest
  | append_singleton results result ih =>
    have hbefore := (List.forall_mem_append.mp hnumbers).1
    rw [fastest_concat] at hbest
    cases hlast : fastest results with
    | none =>
      rw [hlast] at hbest
      obtain rfl := Option.some.inj hbest
      rw [(fastest_eq_none_iff results).mp hlast]
      exact ⟨[], [], rfl, List.forall_mem_nil _, List.forall_mem_nil _⟩
    | some last =>
      have hfirst := ih hbefore hlast
      rw [hlast, better] at hbest
      by_cases hle : last.rate ≥ result.rate
      · rw [if_pos hle] at hbest
        obtain rfl := Option.some.inj hbest
        exact hfirst.keep hle
      · rw [if_neg hle] at hbest
        obtain rfl := Option.some.inj hbest
        exact hfirst.replace hnumbers hle

example : (fastest [⟨.c, 1⟩, ⟨.sse2, 3⟩, ⟨.sse4, 2⟩, ⟨.avx2, 3⟩]).map (·.algorithm) = some .sse2 := by
  decide

end Results

/-! ## Trials -/

/-- The benchmark of a candidate: what was asked to measure it, with the answers, and how it ended. -/
structure Trial where
  algorithm : Algorithm
  asked : List (Routine.Exchange Harness.Event.Answer)
  outcome : BenchOutcome

namespace Trial

/-- Measurements may be done in any way that leads to an outcome. -/
def Ran (measure : Algorithm → Benchmarking BenchOutcome) (trial : Trial) : Prop :=
  Routine.Trace (measure trial.algorithm) trial.asked trial.outcome

def result (trial : Trial) : BenchResult :=
  BenchResult.ofOutcome trial.algorithm trial.outcome

theorem result_algorithm (trial : Trial) : trial.result.algorithm = trial.algorithm := by
  obtain ⟨algorithm, asked, outcome⟩ := trial
  cases outcome <;> rfl

/-- All that is asked in a benchmark.  At last the outcome is logged. -/
def transcript (trial : Trial) : List (Routine.Exchange Harness.Event.Answer) :=
  trial.asked ++ [⟨.note (BenchResult.outcomeLine trial.algorithm trial.outcome), ()⟩]

/-- There is a sample, and some time was measured. -/
def Timed (trial : Trial) : Prop :=
  ∃ sample, trial.outcome = .ok sample ∧ sample.elapsed ≠ .zero

/-- What the rate of a trial says. -/
structure Rated (trial : Trial) : Prop where
  sampled : ∀ sample, trial.outcome = .ok sample → sample.elapsed ≠ .zero →
    sample.rate? = some trial.result.rate
  number : trial.result.rate.isNaN = false
  timed : trial.Timed → 0 ≤ trial.result.rate
  failed : ¬ trial.Timed → trial.result.rate = BenchResult.failedRate

theorem failedRate_unpack :
    BenchResult.failedRate.toModel.unpack = .finite .negative (2 ^ 52) (-52) (by decide) := rfl

theorem failedRate_isNaN : BenchResult.failedRate.isNaN = false :=
  congrArg Float.Model.UnpackedFloat.isNaN failedRate_unpack

theorem failedRate_lt_zero : place BenchResult.failedRate < place 0 := by
  rw [place, failedRate_unpack]
  exact Prod.Lex.toLex_lt_toLex.mpr (.inl (by decide))

theorem rate_of_ok {trial : Trial} {sample : Sample} (h : trial.outcome = .ok sample) :
    trial.result.rate = sample.rate?.getD BenchResult.failedRate := by
  rw [result, h]
  rfl

theorem rate_of_not_timed {trial : Trial} (h : ¬ trial.Timed) :
    trial.result.rate = BenchResult.failedRate := by
  cases houtcome : trial.outcome with
  | error fault =>
    rw [result, houtcome]
    rfl
  | ok sample =>
    have hzero : sample.elapsed = .zero := by
      by_contra htime
      exact h ⟨sample, houtcome, htime⟩
    rw [rate_of_ok houtcome, Sample.rate?_of_zero hzero]
    rfl

theorem exists_rate_of_ok {trial : Trial} {sample : Sample} (houtcome : trial.outcome = .ok sample)
    (htime : sample.elapsed ≠ .zero) :
    sample.rate? = some trial.result.rate ∧ trial.result.rate.isNaN = false ∧ 0 ≤ trial.result.rate := by
  obtain ⟨rate, hrate, hspec⟩ := Sample.exists_rate? htime
  have heq : trial.result.rate = rate := by
    rw [rate_of_ok houtcome, hrate]
    rfl
  rw [heq]
  exact ⟨hrate, hspec⟩

theorem rated (trial : Trial) : trial.Rated where
  sampled _ houtcome htime := (exists_rate_of_ok houtcome htime).1
  number := by
    by_cases htimed : trial.Timed
    · obtain ⟨sample, houtcome, htime⟩ := htimed
      exact (exists_rate_of_ok houtcome htime).2.1
    · rw [rate_of_not_timed htimed]
      exact failedRate_isNaN
  timed := fun ⟨_, houtcome, htime⟩ ↦ (exists_rate_of_ok houtcome htime).2.2
  failed := rate_of_not_timed

/-- Every sample with a rate is ahead of every failure. -/
theorem place_lt {trial other : Trial} (htimed : trial.Timed) (hnot : ¬ other.Timed) :
    place other.result.rate < place trial.result.rate := by
  have hnonneg := (le_iff_place_le isZero_zero.isNaN trial.rated.number).mp (trial.rated.timed htimed)
  rw [other.rated.failed hnot]
  exact failedRate_lt_zero.trans_le hnonneg

end Trial

/-- The trial whose result is kept. -/
structure Chosen (trials : List Trial) (chosen : Trial) : Prop where
  /-- No trial is faster, and none before it is as fast. -/
  first : ∃ earlier later, trials = earlier ++ chosen :: later ∧
    (∀ other ∈ earlier, other.result.rate < chosen.result.rate) ∧
      ∀ other ∈ later, other.result.rate ≤ chosen.result.rate
  timed : (∃ trial ∈ trials, trial.Timed) → chosen.Timed
  failed : (∀ trial ∈ trials, ¬ trial.Timed) → trials.head? = some chosen

section Trials

variable {trials : List Trial} {best : BenchResult}

theorem numbers (trials : List Trial) : ∀ result ∈ trials.map Trial.result, result.rate.isNaN = false :=
  List.forall_mem_map.mpr fun trial _ ↦ trial.rated.number

theorem exists_chosen (h : fastest (trials.map Trial.result) = some best) :
    ∃ chosen, best = chosen.result ∧ Chosen trials chosen := by
  have hbest := isFirstFastest_fastest (numbers trials) h
  have hle := hbest.place_le (numbers trials)
  obtain ⟨earlier, later, heq, hearlier, hlater⟩ := hbest
  obtain ⟨earlier, rest, rfl, rfl, hrest⟩ := List.map_eq_append_iff.mp heq
  obtain ⟨chosen, later, rfl, rfl, rfl⟩ := List.map_eq_cons_iff.mp hrest
  rw [List.forall_mem_map] at hearlier hlater hle
  refine ⟨chosen, rfl, ⟨earlier, later, rfl, hearlier, hlater⟩, ?_, ?_⟩
  · rintro ⟨trial, hmem, htimed⟩
    by_contra hnot
    exact absurd (hle trial hmem) (Trial.place_lt htimed hnot).not_ge
  · intro hnone
    -- An earlier trial would have to be slower, but all have the same rate.
    cases earlier with
    | nil => rfl
    | cons trial earlier =>
      have hlt := (lt_iff_place_lt trial.rated.number chosen.rated.number).mp
        (hearlier trial List.mem_cons_self)
      rw [trial.rated.failed (hnone trial (by simp)), chosen.rated.failed (hnone chosen (by simp))] at hlt
      exact absurd hlt (lt_irrefl _)

end Trials

/-! ## Selections -/

section Selections

open Routine

/-- The benchmark of a candidate, however it is measured. -/
def tried (measure : Algorithm → Benchmarking BenchOutcome) (algorithm : Algorithm) :
    Benchmarking (Attempt BenchResult) :=
  (measure algorithm).bind (Harness.conclude algorithm)

variable {measure : Algorithm → Benchmarking BenchOutcome} {candidates : List Algorithm}
  {t : List (Exchange Harness.Event.Answer)}

theorem trace_conclude_iff {algorithm : Algorithm} {outcome : BenchOutcome}
    {attempt : Attempt BenchResult} :
    Trace (Harness.conclude algorithm outcome) t attempt ↔
      t = [⟨.note (BenchResult.outcomeLine algorithm outcome), ()⟩] ∧
        attempt = .ok (BenchResult.ofOutcome algorithm outcome) := by
  have hconclude : Harness.conclude algorithm outcome =
      .ask (.note (BenchResult.outcomeLine algorithm outcome)) fun _ ↦
        .done (.ok (BenchResult.ofOutcome algorithm outcome)) := rfl
  rw [hconclude, trace_ask_iff]
  constructor
  · rintro ⟨answer, rest, rfl, hrest⟩
    obtain ⟨rfl, hattempt⟩ := trace_done_iff.mp hrest
    exact ⟨rfl, hattempt⟩
  · rintro ⟨rfl, rfl⟩
    exact ⟨(), [], rfl, .done _⟩

theorem trace_tried_iff {algorithm : Algorithm} {attempt : Attempt BenchResult} :
    Trace (tried measure algorithm) t attempt ↔ ∃ trial : Trial, trial.algorithm = algorithm ∧
      trial.Ran measure ∧ t = trial.transcript ∧ attempt = .ok trial.result := by
  rw [tried, trace_bind_iff]
  constructor
  · rintro ⟨asked, t', outcome, rfl, hasked, hconclude⟩
    obtain ⟨rfl, hattempt⟩ := trace_conclude_iff.mp hconclude
    exact ⟨⟨algorithm, asked, outcome⟩, rfl, hasked, rfl, hattempt⟩
  · rintro ⟨trial, rfl, hran, rfl, rfl⟩
    exact ⟨trial.asked, _, trial.outcome, rfl, hran, trace_conclude_iff.mpr ⟨rfl, rfl⟩⟩

/-- Candidates are benchmarked in order, each once, and the best result is kept up to date. -/
theorem trace_fastestOf_iff {best : Option BenchResult} {attempt : Attempt (Option BenchResult)} :
    Trace (fastestOf (tried measure) candidates best) t attempt ↔
      ∃ trials : List Trial, trials.map (·.algorithm) = candidates ∧
        (∀ trial ∈ trials, trial.Ran measure) ∧ t = trials.flatMap Trial.transcript ∧
          attempt = .ok ((trials.map Trial.result).foldl better best) := by
  induction candidates generalizing t best with
  | nil =>
    rw [fastestOf, trace_done_iff]
    constructor
    · rintro ⟨rfl, rfl⟩
      exact ⟨[], rfl, List.forall_mem_nil _, rfl, rfl⟩
    · rintro ⟨trials, hcandidates, -, rfl, rfl⟩
      rw [List.map_eq_nil_iff.mp hcandidates]
      exact ⟨rfl, rfl⟩
  | cons algorithm rest ih =>
    rw [fastestOf, trace_bind_iff]
    constructor
    · rintro ⟨t₁, t₂, attempt', rfl, hfirst, hrest⟩
      obtain ⟨trial, rfl, hran, rfl, rfl⟩ := trace_tried_iff.mp hfirst
      obtain ⟨trials, rfl, hrans, rfl, rfl⟩ := ih.mp hrest
      exact ⟨trial :: trials, rfl, List.forall_mem_cons.mpr ⟨hran, hrans⟩, rfl, rfl⟩
    · rintro ⟨trials, hcandidates, hrans, rfl, rfl⟩
      obtain ⟨trial, trials, rfl, rfl, rfl⟩ := List.map_eq_cons_iff.mp hcandidates
      obtain ⟨hran, hrans⟩ := List.forall_mem_cons.mp hrans
      exact ⟨_, _, _, rfl, trace_tried_iff.mpr ⟨trial, rfl, hran, rfl, rfl⟩,
        ih.mpr ⟨trials, rfl, hrans, rfl, rfl⟩⟩

theorem trace_selectFastest_iff {attempt : Attempt (Option BenchResult)} :
    Trace (selectFastest (tried measure) candidates) t attempt ↔
      ∃ trials : List Trial, trials.map (·.algorithm) = candidates ∧
        (∀ trial ∈ trials, trial.Ran measure) ∧ t = trials.flatMap Trial.transcript ∧
          attempt = .ok (fastest (trials.map Trial.result)) :=
  trace_fastestOf_iff

/-- The first of the fastest results is kept, whatever the results.  Selecting benchmarks each candidate once
and in order, comes to a result however the benchmarks end, and keeps a failure only if there is no sample. -/
theorem selects_first_fastest :
    (∀ results : List BenchResult, (∀ result ∈ results, result.rate.isNaN = false) →
      (fastest results = none ↔ results = []) ∧
        ∀ best, fastest results = some best → IsFirstFastest results best) ∧
      (∀ trial : Trial, trial.Rated) ∧
        ∀ measure : Algorithm → Benchmarking BenchOutcome,
          (∀ candidates t attempt, Trace (selectFastest (tried measure) candidates) t attempt →
            ∃ trials : List Trial, trials.map (·.algorithm) = candidates ∧
              (∀ trial ∈ trials, trial.Ran measure) ∧ t = trials.flatMap Trial.transcript ∧
                (trials = [] ∧ attempt = .ok none ∨
                  ∃ chosen, Chosen trials chosen ∧ attempt = .ok (some chosen.result))) ∧
            ∀ trials : List Trial, (∀ trial ∈ trials, trial.Ran measure) →
              ∃ attempt, Trace (selectFastest (tried measure) (trials.map (·.algorithm)))
                (trials.flatMap Trial.transcript) attempt := by
  refine ⟨fun results hnumbers ↦ ?_, Trial.rated, fun measure ↦ ⟨?_, fun trials hran ↦ ?_⟩⟩
  · exact ⟨fastest_eq_none_iff results, fun best ↦ isFirstFastest_fastest hnumbers⟩
  · intro candidates t attempt htrace
    obtain ⟨trials, hcandidates, hran, ht, rfl⟩ := trace_selectFastest_iff.mp htrace
    refine ⟨trials, hcandidates, hran, ht, ?_⟩
    cases hfastest : fastest (trials.map Trial.result) with
    | none => exact .inl ⟨List.map_eq_nil_iff.mp ((fastest_eq_none_iff _).mp hfastest), rfl⟩
    | some best =>
      obtain ⟨chosen, rfl, hchosen⟩ := exists_chosen hfastest
      exact .inr ⟨chosen, hchosen, rfl⟩
  · exact ⟨_, trace_selectFastest_iff.mpr ⟨trials, rfl, hran, rfl, rfl⟩⟩

/-- One candidate crashes, and all others have a sample. -/
def crashingFirst : Algorithm → Benchmarking BenchOutcome
  | .c => .done (.error (.crashed 11))
  | _ => .done (.ok ⟨1000, .ofSeconds 1⟩)

theorem exists_trace_crashingFirst :
    ∃ t best, Trace (selectFastest (tried crashingFirst) [.c, .sse2]) t (.ok (some best)) ∧
      best.algorithm = .sse2 := by
  obtain ⟨hsound, hexists⟩ := selects_first_fastest.2.2 crashingFirst
  have hran : ∀ trial ∈ [(⟨.c, [], .error (.crashed 11)⟩ : Trial), ⟨.sse2, [], .ok ⟨1000, .ofSeconds 1⟩⟩],
      trial.Ran crashingFirst :=
    List.forall_mem_cons.mpr ⟨.done _, List.forall_mem_singleton.mpr (.done _)⟩
  obtain ⟨attempt, htrace⟩ := hexists _ hran
  obtain ⟨trials, hcandidates, hrans, -, hresult⟩ := hsound _ _ _ htrace
  obtain ⟨first, rest, rfl, hfirst, hrest⟩ := List.map_eq_cons_iff.mp hcandidates
  obtain ⟨second, rest, rfl, hsecond, hrest⟩ := List.map_eq_cons_iff.mp hrest
  obtain rfl := List.map_eq_nil_iff.mp hrest
  have hcrashed : ¬ first.Timed := by
    have htrial := hrans first (by simp)
    rw [Trial.Ran, hfirst] at htrial
    rintro ⟨sample, houtcome, -⟩
    cases houtcome.symm.trans (trace_done_iff.mp htrial).2
  have hsampled : second.Timed := by
    have htrial := hrans second (by simp)
    rw [Trial.Ran, hsecond] at htrial
    exact ⟨_, (trace_done_iff.mp htrial).2, by decide⟩
  rcases hresult with ⟨hnil, -⟩ | ⟨chosen, hchosen, rfl⟩
  · cases hnil
  · refine ⟨_, chosen.result, htrace, ?_⟩
    obtain ⟨earlier, later, heq, -⟩ := hchosen.first
    have hmem : chosen ∈ [first, second] := heq ▸ List.mem_append_right _ List.mem_cons_self
    have htimed := hchosen.timed ⟨second, by simp, hsampled⟩
    rcases List.mem_cons.mp hmem with rfl | hmem
    · exact absurd htimed hcrashed
    · obtain rfl := List.mem_singleton.mp hmem
      exact chosen.result_algorithm.trans hsecond

end Selections

end Hashwork.Selection
