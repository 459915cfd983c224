import Hashwork.Proofs.Routine.Trace
import Hashwork.Proofs.Selection.History

/-!
# Where callers are in their calls

Only the holder of the lock is past the point where it has looked into the cell for the second time, and
what it saw there is there still.  So whoever benchmarks or writes an algorithm does so while the cell is
empty, and whatever a call returns was in the cell at some moment of the call.
-/

namespace Hashwork.Selection

/-- Once there was a result there is a best one. -/
theorem exists_better_eq (best : Option BenchResult) (result : BenchResult) :
    ∃ kept, better best result = some kept := by
  cases best with
  | none => exact ⟨result, rfl⟩
  | some best =>
    by_cases h : best.rate ≥ result.rate
    · exact ⟨best, if_pos h⟩
    · exact ⟨result, if_neg h⟩

/-- What is left to a call that holds the lock and has found the cell empty. -/
inductive Choosing (candidates : List Algorithm) : Selecting Reply → Prop
  | bench {algorithm : Algorithm} {next : Attempt BenchResult → Selecting Reply}
    (hok : ∀ result, Choosing candidates (next (.ok result)))
    (herror : ∀ breakdown, next (.error breakdown) =
      .ask .abandon fun _ ↦ .done (.resolved (.error (.givenUp breakdown)))) :
    Choosing candidates (.ask (.bench algorithm) next)
  | note {line : Log.Line} {next : Unit → Selecting Reply} (h : Choosing candidates (next ())) :
    Choosing candidates (.ask (.note line) next)
  | write (algorithm : Algorithm) :
    Choosing candidates (.ask (.write (some algorithm)) fun _ ↦ .ask .release fun _ ↦
      .done (.resolved (.ok algorithm)))
  | nothing (h : candidates = []) :
    Choosing candidates (.ask .release fun _ ↦ .done (.resolved (.error .nothingUsable)))

namespace Choosing

variable {candidates : List Algorithm}

/-- Some benchmark has a best result, so without one there was no candidate. -/
theorem fastestOf {after : Attempt (Option BenchResult) → Selecting Reply}
    (herror : ∀ breakdown, after (.error breakdown) =
      .ask .abandon fun _ ↦ .done (.resolved (.error (.givenUp breakdown))))
    (hnothing : candidates = [] → Choosing candidates (after (.ok none)))
    (hbest : ∀ best, Choosing candidates (after (.ok (some best)))) (rest : List Algorithm)
    (best : Option BenchResult) (h : rest = [] → best = none → candidates = []) :
    Choosing candidates
      ((Selection.fastestOf (fun algorithm ↦ .ask (.bench algorithm) .done) rest best).bind
        after) := by
  induction rest generalizing best with
  | nil =>
    cases best with
    | none => exact hnothing (h rfl rfl)
    | some best => exact hbest best
  | cons algorithm rest ih =>
    refine .bench (fun result ↦ ih (better best result) ?_) herror
    intro _ hnone
    obtain ⟨kept, hkept⟩ := exists_better_eq best result
    cases hnone.symm.trans hkept

theorem selectByBenchmark (candidates : List Algorithm) :
    Choosing candidates
      ((Selection.selectByBenchmark candidates).bind fun result ↦ .done (.resolved result)) := by
  apply Choosing.note
  change Choosing candidates (((selectFastest _ candidates).bind _).bind _)
  rw [Routine.bind_assoc]
  apply fastestOf
  · exact fun _ ↦ rfl
  · exact nothing
  · exact fun best ↦ .note (.write best.algorithm)
  · exact fun hcandidates _ ↦ hcandidates

theorem select (processor : Processor) (choice : Choice) (candidates : List Algorithm) :
    Choosing candidates
      ((Selection.select processor choice candidates).bind fun result ↦ .done (.resolved result)) := by
  cases choice with
  | fixed algorithm =>
    unfold Selection.select
    by_cases havailable : algorithm.isAvailable processor
    · simp only [if_pos havailable]
      exact .note (.write algorithm)
    · simp only [if_neg havailable]
      exact .note (.selectByBenchmark candidates)
  | fastAuto => exact .selectByBenchmark candidates
  | auto => exact .selectByBenchmark candidates

end Choosing

/-- What is left to a call that resolves a choice and has not got the lock yet. -/
inductive Resolving (candidates : List Algorithm) : Selecting Reply → Prop
  | read {next : Option Algorithm → Selecting Reply}
    (hfound : ∀ algorithm, next (some algorithm) = .done (.resolved (.ok algorithm)))
    (hempty : Resolving candidates (next none)) : Resolving candidates (.ask .read next)
  | acquire {next : Option Algorithm → Selecting Reply}
    (hfound : ∀ algorithm, next (some algorithm) =
      .ask .release fun _ ↦ .done (.resolved (.ok algorithm)))
    (hempty : Choosing candidates (next none)) : Resolving candidates (.ask .acquire next)

theorem Resolving.routine (processor : Processor) (choice : Choice) (candidates : List Algorithm) :
    Resolving candidates (Call.routine processor (.resolve choice candidates)) :=
  .read (fun _ ↦ rfl) (.acquire (fun _ ↦ rfl) (.select processor choice candidates))

/-- A caller is in a call that resolves a choice and has selected nothing yet. -/
structure Undecided (caller : Nat) (history : History) (candidates : List Algorithm) : Prop where
  call?_eq : ∃ choice, history.call? caller = some (.resolve choice candidates)
  selected?_eq : history.selected? caller = none

/-- What can be left to a caller when a history has come about and the lock is held as it is. -/
inductive Stage (caller : Nat) (holder : Option Nat) (history : History) : Selecting Reply → Prop
  | resolving {candidates : List Algorithm} {rest : Selecting Reply} (hfree : holder ≠ some caller)
    (hcall : Undecided caller history candidates) (h : Resolving candidates rest) :
    Stage caller holder history rest
  | choosing {candidates : List Algorithm} {rest : Selecting Reply} (hheld : holder = some caller)
    (hcall : Undecided caller history candidates) (hempty : history.content = none)
    (h : Choosing candidates rest) : Stage caller holder history rest
  | abandoning {breakdown : Breakdown} (hheld : holder = some caller)
    (hempty : history.content = none) (hselected : history.selected? caller = none) :
    Stage caller holder history
      (.ask .abandon fun _ ↦ .done (.resolved (.error (.givenUp breakdown))))
  | releasing {reply : Reply} (hheld : holder = some caller) (h : history.Answers caller reply)
    (hempty : ∀ fault, reply = .resolved (.error fault) → history.content = none) :
    Stage caller holder history (.ask .release fun _ ↦ .done reply)
  | looking (hfree : holder ≠ some caller) (hselected : history.selected? caller = none) :
    Stage caller holder history (.ask .read fun content ↦ .done (.chosen content))
  | resetting (hfree : holder ≠ some caller) (hcall : history.call? caller = some .reset)
    (hselected : history.selected? caller = none) :
    Stage caller holder history
      (.ask .acquire fun _ ↦ .ask (.write none) fun _ ↦ .ask .release fun _ ↦ .done .emptied)
  | emptying (hheld : holder = some caller) (hcall : history.call? caller = some .reset)
    (hselected : history.selected? caller = none) :
    Stage caller holder history
      (.ask (.write none) fun _ ↦ .ask .release fun _ ↦ .done .emptied)
  | returning {reply : Reply} (hfree : holder ≠ some caller) (h : history.Answers caller reply) :
    Stage caller holder history (.done reply)

section Others

variable {caller i : Nat} {happening : Happening} {history : History}

theorem History.call?_cons (hne : i ≠ caller) :
    call? caller ((i, happening) :: history) = call? caller history := by
  cases happening with
  | called call => exact if_neg hne
  | _ => rfl

theorem History.selected?_cons (hne : i ≠ caller) :
    selected? caller ((i, happening) :: history) = selected? caller history := by
  cases happening with
  | called call => exact if_neg hne
  | wrote content => exact if_neg hne
  | _ => rfl

theorem History.content_cons (h : happening.written? = none) :
    content ((i, happening) :: history) = content history := by
  cases happening with
  | wrote content => cases h
  | _ => rfl

theorem History.Answers.cons {reply : Reply} (h : history.Answers caller reply) (hne : i ≠ caller) :
    Answers caller ((i, happening) :: history) reply := by
  have hgoing : ∀ call, (i, happening) ≠ (caller, .called call) :=
    fun call heq ↦ hne (congrArg Prod.fst heq)
  match reply, h with
  | .resolved (.ok algorithm), h =>
    refine ⟨h.1.cons hgoing, ?_⟩
    rw [selected?_cons hne]
    exact h.2
  | .resolved (.error .nothingUsable), h =>
    refine ⟨(selected?_cons hne).trans h.1, ?_⟩
    rw [call?_cons hne]
    exact h.2
  | .resolved (.error (.givenUp _)), h => exact (selected?_cons hne).trans h
  | .chosen _, h => exact ⟨h.1.cons hgoing, (selected?_cons hne).trans h.2⟩
  | .emptied, h => exact (selected?_cons hne).trans h

theorem Undecided.cons {candidates : List Algorithm} (h : Undecided caller history candidates)
    (hne : i ≠ caller) : Undecided caller ((i, happening) :: history) candidates where
  call?_eq := by
    rw [History.call?_cons hne]
    exact h.call?_eq
  selected?_eq := (History.selected?_cons hne).trans h.selected?_eq

namespace Stage

variable {holder : Option Nat} {rest : Selecting Reply}

/-- A stage depends on the lock only in whether the caller holds it. -/
theorem congr {holder' : Option Nat} (h : Stage caller holder history rest)
    (hiff : holder' = some caller ↔ holder = some caller) : Stage caller holder' history rest := by
  cases h with
  | resolving hfree hcall h => exact .resolving (mt hiff.mp hfree) hcall h
  | choosing hheld hcall hempty h => exact .choosing (hiff.mpr hheld) hcall hempty h
  | abandoning hheld hempty hselected => exact .abandoning (hiff.mpr hheld) hempty hselected
  | releasing hheld h hempty => exact .releasing (hiff.mpr hheld) h hempty
  | looking hfree hselected => exact .looking (mt hiff.mp hfree) hselected
  | resetting hfree hcall hselected => exact .resetting (mt hiff.mp hfree) hcall hselected
  | emptying hheld hcall hselected => exact .emptying (hiff.mpr hheld) hcall hselected
  | returning hfree h => exact .returning (mt hiff.mp hfree) h

/-- What another caller does leaves a caller where it is.  While it holds the lock, nobody else writes. -/
theorem cons (h : Stage caller holder history rest) (hne : i ≠ caller)
    (hkept : holder = some caller → happening.written? = none) :
    Stage caller holder ((i, happening) :: history) rest := by
  have hselected (h : history.selected? caller = none) :
      History.selected? caller ((i, happening) :: history) = none :=
    (History.selected?_cons hne).trans h
  have hcontent (hheld : holder = some caller) (h : history.content = none) :
      History.content ((i, happening) :: history) = none :=
    (History.content_cons (hkept hheld)).trans h
  cases h with
  | resolving hfree hcall h => exact .resolving hfree (hcall.cons hne) h
  | choosing hheld hcall hempty h =>
    exact .choosing hheld (hcall.cons hne) (hcontent hheld hempty) h
  | abandoning hheld hempty hnone =>
    exact .abandoning hheld (hcontent hheld hempty) (hselected hnone)
  | releasing hheld h hempty =>
    exact .releasing hheld (h.cons hne) fun fault heq ↦ hcontent hheld (hempty fault heq)
  | looking hfree hnone => exact .looking hfree (hselected hnone)
  | resetting hfree hcall hnone =>
    exact .resetting hfree ((History.call?_cons hne).trans hcall) (hselected hnone)
  | emptying hheld hcall hnone =>
    exact .emptying hheld ((History.call?_cons hne).trans hcall) (hselected hnone)
  | returning hfree h => exact .returning hfree (h.cons hne)

end Stage

end Others

end Hashwork.Selection
