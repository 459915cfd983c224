import Hashwork.CommandLine.Program
import Hashwork.Proofs.Benchmark.Limit
import Hashwork.Proofs.Scan.Agreement
import Hashwork.Proofs.Selection.Fastest
import Hashwork.Proofs.Selection.Usable

/-!
# The miner can mine the item

The program makes its item and its miner from the same configuration.  Unless a benchmark is given up, the miner
has a kernel for the item, on every processor and however the benchmarks end.
-/

namespace Hashwork

open Routine

section Scanners

variable {processor : Processor} {choice : Choice}

/-- A scanner that can scan an item, as well as all items that come of it. -/
structure Scanner.Serves (scanner : Scanner) (item : WorkItem) : Prop where
  exists_kernel : ∃ kernel, scanner.kernelFor item = some kernel
  /-- In particular it is never reported that there is no kernel. -/
  level_ne_error : ∀ ceiling t other report, Trace (scanner.scan item ceiling) t (other, report) →
    ∀ line ∈ Scan.linesIn t, line.level ≠ .error
  pow_eq : ∀ ceiling t other report, Trace (scanner.scan item ceiling) t (other, report) →
    other.pow = item.pow

theorem Scanner.serves_of_kernelFor {scanner : Scanner} {item : WorkItem} {kernel : Kernel}
    (h : scanner.kernelFor item = some kernel) : scanner.Serves item where
  exists_kernel := ⟨kernel, h⟩
  level_ne_error _ _ _ _ := level_ne_error_of_trace h
  pow_eq _ _ _ _ htrace := WorkItem.pow_eq_of_template (template_scan htrace)

theorem Scanner.announce_of_kernel {algorithm : Algorithm} {kernel : Kernel}
    (h : algorithm.kernel? processor = some kernel) :
    announce processor algorithm = .done (ofAlgorithm processor algorithm) := by
  have hscanner : (ofAlgorithm processor algorithm).kernel = some kernel := h
  unfold announce
  dsimp only
  rw [hscanner]
  rfl

variable {E : Type} {R : E → Type} {broken : Exchange R → Prop} {breakdown : Breakdown}
  {bench : Algorithm → Routine E R (Attempt BenchResult)} {note : Log.Line → Routine E R Unit}

theorem Scanner.propagates_ofChoice (hbench : Selection.Dependable broken breakdown bench)
    (hnote : ∀ line, Quiet broken (note line)) (processor : Processor) (choice : Choice) :
    Propagates broken (· = (.error breakdown, none))
      (fun p ↦ ∃ algorithm, Selection.Usable processor choice algorithm ∧
        p = (.ok (ofAlgorithm processor algorithm), some algorithm))
      (Selection.alone bench note (ofChoice processor choice) none) := by
  have hne : processor.candidates ≠ [] := List.ne_nil_of_mem processor.c_mem_candidates
  unfold ofChoice
  rw [Selection.alone_bind]
  refine (Selection.propagates_resolve hbench hnote processor choice hne).bind ?_ ?_
  · rintro _ rfl
    exact ⟨_, rfl, rfl⟩
  · rintro _ ⟨algorithm, hresolved, rfl⟩
    obtain ⟨kernel, hkernel⟩ := hresolved.usable.exists_kernel
    simp only [ofResolved, announce_of_kernel hkernel]
    exact .done ⟨algorithm, hresolved.usable, rfl⟩

end Scanners

namespace CommandLine

variable {listeners : Listeners}

theorem Listeners.quiet_note {broken : Exchange Program.Event.Answer → Prop}
    (hterminal : ∀ line answer, ¬ broken ⟨.logToTerminal line, answer⟩)
    (hfile : ∀ line answer, ¬ broken ⟨.logToFile line, answer⟩) (line : Log.Line) :
    Quiet broken (listeners.note line) := by
  have hrest : Quiet broken
      (if takes listeners.file line then Program.ask (.logToFile line) else pure ()) := by
    split
    · exact .ask_safe (hfile line) fun _ ↦ .done trivial
    · exact .done trivial
  unfold note
  dsimp only
  split
  · exact .ask_safe (hterminal line) fun _ ↦ hrest
  · exact hrest

namespace Program

/-- An isolated measurement was given up. -/
def IsBreakdown : Exchange Event.Answer → Prop
  | ⟨.isolate _ _ _, .overflowed⟩ => True
  | _ => False

def GivenUp (t : List (Exchange Event.Answer)) : Prop := ∃ exchange ∈ t, IsBreakdown exchange

/-- A kernel was measured. -/
def IsMeasurement : Exchange Event.Answer → Prop
  | ⟨.measure _ _, _⟩ | ⟨.isolate _ _ _, _⟩ => True
  | _ => False

theorem quiet_note (line : Log.Line) : Quiet IsBreakdown (listeners.note line) :=
  Listeners.quiet_note (fun _ _ ↦ id) (fun _ _ ↦ id) line

theorem dependable_benchmark (listeners : Listeners) (harness : Harness) (processor : Processor)
    (mode : BenchMode) : Selection.Dependable IsBreakdown ⟨Isolation.overflowMessage⟩
      (benchmark listeners harness processor mode) := by
  intro algorithm
  have hbenchmark : Propagates Harness.IsBreakdown (· = .error ⟨Isolation.overflowMessage⟩)
      (fun attempt ↦ ∃ result, attempt = .ok result ∧ result.algorithm = algorithm)
      (harness.benchmark processor algorithm mode) := by
    refine (Harness.propagates_benchmark harness processor algorithm mode).mono (fun _ ↦ id) ?_
    rintro _ ⟨outcome, rfl⟩
    exact ⟨_, rfl, Selection.Trial.result_algorithm ⟨algorithm, [], outcome⟩⟩
  refine hbenchmark.run fun e ↦ ?_
  cases e with
  | note line => exact (quiet_note line).mono (fun _ ↦ False.elim) fun _ _ ↦ id
  | measure kernel mode => exact .ask_safe (fun _ ↦ id) fun sample ↦ .done id
  | isolate kernel mode =>
    refine .ask fun result ↦ ?_
    cases result with
    | outcome outcome => exact .inr ⟨id, .done id⟩
    | overflowed => exact .inl ⟨trivial, _, rfl, trivial⟩

theorem itemFor_pow (choice : Choice) (header : Header) (bits : Word) :
    (itemFor choice header bits).pow = if choice = .fixed .scrypt then .scrypt else .sha256d := by
  unfold itemFor
  dsimp only
  split
  · rfl
  · rfl

/-- What was selected for a choice scans what is mined with the same choice. -/
theorem serves_of_usable {processor : Processor} {choice : Choice} {algorithm : Algorithm}
    (h : Selection.Usable processor choice algorithm) {header : Header} {bits : Word} {item : WorkItem}
    (hpow : item.pow = (itemFor choice header bits).pow) :
    (Scanner.ofAlgorithm processor algorithm).Serves item := by
  rw [itemFor_pow] at hpow
  by_cases hscrypt : choice = .fixed .scrypt
  · have hkernel : (Scanner.ofAlgorithm processor algorithm).kernelFor item = some .scrypt := by
      unfold Scanner.kernelFor
      rw [hpow, if_pos hscrypt]
    exact Scanner.serves_of_kernelFor hkernel
  · rw [if_neg hscrypt] at hpow
    have hmem := Processor.mem_candidates_iff.mpr
      ⟨Option.isSome_iff_exists.mpr h.exists_kernel, h.isSha256d hscrypt⟩
    obtain ⟨kernel, hkernel⟩ := Scanner.exists_kernelFor_of_mem_candidates hmem hpow
    exact Scanner.serves_of_kernelFor hkernel

/-- The first call to resolve a choice in a process, with what it leaves in the cell. -/
def firstResolution (listeners : Listeners) (harness : Harness) (processor : Processor)
    (choice : Choice) : Running (Except Selection.Fault Algorithm × Option Algorithm) :=
  Selection.alone (benchmark listeners harness processor choice.mode) listeners.note
    (Selection.resolve processor choice processor.candidates) none

theorem propagates_firstResolution (listeners : Listeners) (harness : Harness) (processor : Processor)
    (choice : Choice) :
    Propagates IsBreakdown (· = (.error (.givenUp ⟨Isolation.overflowMessage⟩), none))
      (fun p ↦ ∃ algorithm, Selection.Usable processor choice algorithm ∧
        p = (.ok algorithm, some algorithm)) (firstResolution listeners harness processor choice) := by
  have hne : processor.candidates ≠ [] := List.ne_nil_of_mem processor.c_mem_candidates
  refine (Selection.propagates_resolve (dependable_benchmark listeners harness processor choice.mode)
    quiet_note processor choice hne).mono (fun _ ↦ id) ?_
  rintro p ⟨algorithm, hresolved, hp⟩
  exact ⟨algorithm, hresolved.usable, hp⟩

/-- No kernel is measured for a fixed algorithm that the processor can run. -/
theorem unmeasured_of_fixed {harness : Harness} {processor : Processor} {algorithm : Algorithm}
    (havailable : algorithm.isAvailable processor = true)
    {t : List (Exchange Event.Answer)} {p : Except Selection.Fault Algorithm × Option Algorithm}
    (htrace : Trace (firstResolution listeners harness processor (.fixed algorithm)) t p) :
    ¬ ∃ exchange ∈ t, IsMeasurement exchange := by
  have hquiet : Quiet IsMeasurement (firstResolution listeners harness processor (.fixed algorithm)) := by
    unfold firstResolution
    rw [Selection.alone_resolve_fixed _ _ havailable]
    exact (Listeners.quiet_note (fun _ _ ↦ id) (fun _ _ ↦ id) _).bind fun _ ↦ .done trivial
  rcases hquiet t p htrace with ⟨-, hfalse⟩ | ⟨hnone, -⟩
  · exact hfalse.elim
  · exact hnone

theorem propagates_minerFor (listeners : Listeners) (processor : Processor) (config : MinerConfig) :
    Propagates IsBreakdown (· = .error ⟨Isolation.overflowMessage⟩)
      (fun attempt ↦ ∃ threads algorithm, Selection.Usable processor config.choice algorithm ∧
        attempt = .ok ⟨threads, Scanner.ofAlgorithm processor algorithm⟩)
      (minerFor listeners processor config) := by
  change Propagates _ _ _ (Routine.bind (Selection.alone _ _ (Miner.ofConfig processor config) none) _)
  unfold Miner.ofConfig
  rw [Selection.alone_bind, Routine.bind_assoc]
  refine (Scanner.propagates_ofChoice
    (dependable_benchmark listeners (.ofConfig config.bench) processor config.choice.mode)
    quiet_note processor config.choice).bind ?_ ?_
  · rintro _ rfl
    exact ⟨_, rfl, rfl⟩
  · rintro _ ⟨algorithm, husable, rfl⟩
    exact .done ⟨_, algorithm, husable, rfl⟩

/-- What the first call to resolve a choice comes to. -/
structure Resolution (processor : Processor) (choice : Choice) (t : List (Exchange Event.Answer))
    (p : Except Selection.Fault Algorithm × Option Algorithm) : Prop where
  /-- Without a breakdown there is an algorithm, and it is in the cell from then on. -/
  ended : GivenUp t ∧ p.1 = .error (.givenUp ⟨Isolation.overflowMessage⟩) ∨
    ¬ GivenUp t ∧ ∃ algorithm, p = (.ok algorithm, some algorithm) ∧
      Selection.Usable processor choice algorithm
  fixed : ∀ fixed, choice = .fixed fixed → fixed.isAvailable processor = true →
    p = (.ok fixed, some fixed) ∧ ¬ ∃ exchange ∈ t, IsMeasurement exchange

theorem isMeasurement_of_isBreakdown {exchange : Exchange Event.Answer} (h : IsBreakdown exchange) :
    IsMeasurement exchange := by
  obtain ⟨e, answer⟩ := exchange
  cases e with
  | isolate harness kernel mode => trivial
  | _ => exact h.elim

theorem resolution_of_trace {harness : Harness} {processor : Processor} {choice : Choice}
    {t : List (Exchange Event.Answer)} {p : Except Selection.Fault Algorithm × Option Algorithm}
    (htrace : Trace (firstResolution listeners harness processor choice) t p) :
    Resolution processor choice t p := by
  have hends := propagates_firstResolution listeners harness processor choice t p htrace
  refine ⟨?_, ?_⟩
  · rcases hends with ⟨hbroken, rfl⟩ | ⟨hwhole, algorithm, husable, hp⟩
    · exact .inl ⟨hbroken, rfl⟩
    · exact .inr ⟨hwhole, algorithm, hp, husable⟩
  · rintro fixed rfl havailable
    have hunmeasured := unmeasured_of_fixed havailable htrace
    refine ⟨?_, hunmeasured⟩
    rcases hends with ⟨⟨exchange, hmem, hbroken⟩, -⟩ | ⟨-, algorithm, husable, hp⟩
    · exact absurd ⟨exchange, hmem, isMeasurement_of_isBreakdown hbroken⟩ hunmeasured
    · rw [hp, husable.eq_of_fixed fixed rfl havailable]

/-- What a fresh process resolves a choice to can be run, and a miner of the same choice scans what is to be
mined, unless a benchmark is given up.  Whatever is answered, both come to an end. -/
theorem mines_item (listeners : Listeners) (processor : Processor) :
    (∀ harness choice,
      (∀ answer : (e : Event) → e.Answer, ∃ t p,
        Trace (firstResolution listeners harness processor choice) t p ∧
          ∀ exchange ∈ t, exchange.2 = answer exchange.1) ∧
        ∀ t p, Trace (firstResolution listeners harness processor choice) t p →
          Resolution processor choice t p) ∧
      ∀ config : MinerConfig,
        (∀ header bits, (itemFor config.choice header bits).pow = .scrypt ↔
          config.choice = .fixed .scrypt) ∧
        (∀ answer : (e : Event) → e.Answer, ∃ t attempt,
          Trace (minerFor listeners processor config) t attempt ∧
            ∀ exchange ∈ t, exchange.2 = answer exchange.1) ∧
          ∀ t attempt, Trace (minerFor listeners processor config) t attempt →
            GivenUp t ∧ attempt = .error ⟨Isolation.overflowMessage⟩ ∨
              ¬ GivenUp t ∧ ∃ miner, attempt = .ok miner ∧ ∀ header bits item,
                item.pow = (itemFor config.choice header bits).pow → miner.scanner.Serves item := by
  refine ⟨fun harness choice ↦ ⟨fun answer ↦ ?_, fun t p ↦ resolution_of_trace⟩, fun config ↦
    ⟨fun header bits ↦ ?_, fun answer ↦ ?_, fun t attempt htrace ↦ ?_⟩⟩
  · obtain ⟨t, htrace, hanswers⟩ := exists_trace_run_answer answer
      (firstResolution listeners harness processor choice)
    exact ⟨t, _, htrace, hanswers⟩
  · rw [itemFor_pow]
    split
    · rename_i hscrypt
      exact iff_of_true rfl hscrypt
    · rename_i hother
      exact iff_of_false nofun hother
  · obtain ⟨t, htrace, hanswers⟩ := exists_trace_run_answer answer (minerFor listeners processor config)
    exact ⟨t, _, htrace, hanswers⟩
  · rcases propagates_minerFor listeners processor config t attempt htrace with
      ⟨hbroken, hattempt⟩ | ⟨hwhole, threads, algorithm, husable, rfl⟩
    · exact .inl ⟨hbroken, hattempt⟩
    · exact .inr ⟨hwhole, _, rfl, fun header bits item hpow ↦ serves_of_usable husable hpow⟩

/-- Every measurement fails, and nothing else is of interest. -/
def failingAnswer : (e : Event) → e.Answer
  | .environment => ⟨none, none⟩
  | .processor => ⟨fun _ ↦ false, 1⟩
  | .randomBytes => Vector.replicate 80 0
  | .readClock => ⟨0⟩
  | .createLog _ _ => none
  | .measure _ _ => none
  | .isolate _ _ _ => .outcome (.error .noResult)
  | .mine _ _ => 0
  | .logToTerminal _ | .logToFile _ | .print _ | .printError _ => ()

/-- The processor cannot run the fixed algorithm and all benchmarks fail, or it can and there are none. -/
theorem exists_miner_failing :
    (∃ t miner, Trace (minerFor .silent ⟨fun _ ↦ false, 1⟩ ⟨.fixed .shaNi, none, .standard⟩) t
        (.ok miner) ∧
      miner.scanner.Serves (itemFor (.fixed .shaNi) ⟨Vector.replicate 80 0⟩ 0x1d00ffff)) ∧
      ∃ t, Trace (firstResolution .silent .standard ⟨fun _ ↦ false, 1⟩ (.fixed .cryptoPp)) t
          (.ok .cryptoPp, some .cryptoPp) ∧
        ¬ ∃ exchange ∈ t, IsMeasurement exchange := by
  obtain ⟨hresolutions, hminers⟩ := mines_item .silent ⟨fun _ ↦ false, 1⟩
  constructor
  · obtain ⟨-, hexists, hends⟩ := hminers ⟨.fixed .shaNi, none, .standard⟩
    obtain ⟨t, attempt, htrace, hanswers⟩ := hexists failingAnswer
    rcases hends t attempt htrace with ⟨hgivenUp, -⟩ | ⟨-, miner, rfl, hserves⟩
    · obtain ⟨⟨e, answer⟩, hmem, hbroken⟩ := hgivenUp
      obtain rfl : answer = failingAnswer e := hanswers _ hmem
      cases e with
      | _ => exact hbroken.elim
    · exact ⟨t, miner, htrace, hserves _ _ _ rfl⟩
  · obtain ⟨hexists, hresolution⟩ := hresolutions .standard (.fixed .cryptoPp)
    obtain ⟨t, p, htrace, -⟩ := hexists failingAnswer
    obtain ⟨rfl, hunmeasured⟩ := (hresolution t p htrace).fixed .cryptoPp rfl rfl
    exact ⟨t, htrace, hunmeasured⟩

/-! ## Measurements that end in time -/

/-- Isolated measurements are answered with what they come to, and no deadline is too late for the clock. -/
def Enacted : Exchange Event.Answer → Prop
  | ⟨.isolate harness _ _, result⟩ => harness.EndsInTime result
  | _ => True

theorem Enacted.not_isBreakdown {exchange : Exchange Event.Answer} (h : Enacted exchange) :
    ¬ IsBreakdown exchange := by
  obtain ⟨e, answer⟩ := exchange
  cases e with
  | isolate harness kernel mode =>
    cases answer with
    | outcome outcome => exact id
    | overflowed => exact absurd rfl h.ne_overflowed
  | _ => exact id

variable {processor : Processor} {t : List (Exchange Event.Answer)}

theorem not_givenUp_of_enacted (h : ∀ exchange ∈ t, Enacted exchange) : ¬ GivenUp t :=
  fun ⟨exchange, hmem, hbroken⟩ ↦ (h exchange hmem).not_isBreakdown hbroken

theorem exists_algorithm_of_enacted {harness : Harness} {choice : Choice}
    {p : Except Selection.Fault Algorithm × Option Algorithm}
    (htrace : Trace (firstResolution listeners harness processor choice) t p)
    (henacted : ∀ exchange ∈ t, Enacted exchange) :
    ∃ algorithm, p = (.ok algorithm, some algorithm) ∧ Selection.Usable processor choice algorithm := by
  rcases (resolution_of_trace htrace).ended with ⟨hgivenUp, -⟩ | ⟨-, hended⟩
  · exact absurd hgivenUp (not_givenUp_of_enacted henacted)
  · exact hended

theorem exists_miner_of_enacted {config : MinerConfig} {attempt : Attempt Miner}
    (htrace : Trace (minerFor listeners processor config) t attempt)
    (henacted : ∀ exchange ∈ t, Enacted exchange) :
    ∃ miner, attempt = .ok miner ∧ ∀ header bits item,
      item.pow = (itemFor config.choice header bits).pow → miner.scanner.Serves item := by
  rcases propagates_minerFor listeners processor config t attempt htrace with
    ⟨hgivenUp, -⟩ | ⟨-, threads, algorithm, husable, rfl⟩
  · exact absurd hgivenUp (not_givenUp_of_enacted henacted)
  · exact ⟨_, rfl, fun header bits item hpow ↦ serves_of_usable husable hpow⟩

end Program

end CommandLine

end Hashwork
