import Hashwork.Proofs.Selection.Stage

/-!
# What the lock keeps true

Whatever steps the callers take and in whatever order, the cell holds what was written last, the history is
orderly, and every caller is at a stage of its call.
-/

namespace Hashwork.Selection

namespace Stage

variable {caller : Nat} {holder : Option Nat} {history : History}

/-- A call starts without the lock. -/
theorem routine (processor : Processor) (call : Call) (hfree : holder ≠ some caller) :
    Stage caller holder ((caller, .called call) :: history) (call.routine processor) := by
  have hcall : History.call? caller ((caller, .called call) :: history) = some call := if_pos rfl
  have hselected : History.selected? caller ((caller, .called call) :: history) = none := if_pos rfl
  cases call with
  | resolve choice candidates =>
    exact .resolving hfree ⟨⟨choice, hcall⟩, hselected⟩ (.routine processor choice candidates)
  | chosen => exact .looking hfree hselected
  | reset => exact .resetting hfree hcall hselected

/-- Who finds an algorithm in the cell may return it. -/
theorem answers_of_content {candidates : List Algorithm} {algorithm : Algorithm}
    (hcall : Undecided caller history candidates) (h : history.content = some algorithm) :
    history.Answers caller (.resolved (.ok algorithm)) := by
  refine ⟨h ▸ history.seen_content caller, ?_⟩
  intro selected hselected
  cases hcall.selected?_eq.symm.trans hselected

theorem read {next : Option Algorithm → Selecting Reply}
    (h : Stage caller holder history (.ask .read next)) :
    Stage caller holder history (next history.content) := by
  cases h with
  | resolving hfree hcall h =>
    cases h with
    | read hfound hempty =>
      cases hcontent : history.content with
      | none => exact .resolving hfree hcall hempty
      | some algorithm =>
        rw [hfound]
        exact .returning hfree (answers_of_content hcall hcontent)
  | choosing _ _ _ h => cases h
  | looking hfree hselected =>
    exact .returning hfree ⟨history.seen_content caller, hselected⟩

theorem acquire {next : Option Algorithm → Selecting Reply}
    (h : Stage caller holder history (.ask .acquire next)) :
    Stage caller (some caller) history (next history.content) := by
  cases h with
  | resolving _ hcall h =>
    cases h with
    | acquire hfound hempty =>
      cases hcontent : history.content with
      | none => exact .choosing rfl hcall hcontent hempty
      | some algorithm =>
        rw [hfound]
        exact .releasing rfl (answers_of_content hcall hcontent) fun _ heq ↦ nomatch heq
  | choosing _ _ _ h => cases h
  | resetting _ hcall hselected => exact .emptying rfl hcall hselected

/-- Who benchmarks holds the lock, and the cell is empty. -/
theorem bench {algorithm : Algorithm} {next : Attempt BenchResult → Selecting Reply}
    (h : Stage caller holder history (.ask (.bench algorithm) next)) :
    holder = some caller ∧ history.content = none ∧
      (∀ breakdown, next (.error breakdown) =
        .ask .abandon fun _ ↦ .done (.resolved (.error (.givenUp breakdown)))) ∧
      ∀ result, Stage caller holder ((caller, .benchmarked algorithm) :: history) (next result) := by
  cases h with
  | resolving _ _ h => cases h
  | choosing hheld hcall hempty h =>
    cases h with
    | bench hok herror =>
      refine ⟨hheld, hempty, herror, ?_⟩
      intro result
      cases result with
      | ok result => exact .choosing hheld ⟨hcall.call?_eq, hcall.selected?_eq⟩ hempty (hok result)
      | error breakdown =>
        rw [herror]
        exact .abandoning hheld hempty hcall.selected?_eq

theorem note {line : Log.Line} {next : Unit → Selecting Reply}
    (h : Stage caller holder history (.ask (.note line) next)) :
    Stage caller holder ((caller, .noted line) :: history) (next ()) := by
  cases h with
  | resolving _ _ h => cases h
  | choosing hheld hcall hempty h =>
    cases h with
    | note h => exact .choosing hheld ⟨hcall.call?_eq, hcall.selected?_eq⟩ hempty h

/-- Who writes holds the lock, and writes an algorithm only while the cell is empty. -/
theorem write {content : Option Algorithm} {next : Unit → Selecting Reply}
    (h : Stage caller holder history (.ask (.write content) next)) :
    holder = some caller ∧ History.Allows caller history (.wrote content) ∧
      Stage caller holder ((caller, .wrote content) :: history) (next ()) := by
  cases h with
  | resolving _ _ h => cases h
  | choosing hheld hcall hempty h =>
    cases h with
    | write algorithm =>
      refine ⟨hheld, hempty, .releasing hheld ⟨History.seen_content caller _, ?_⟩ ?_⟩
      · intro selected hselected
        exact Option.some.inj (hselected.symm.trans (if_pos rfl))
      · exact fun _ heq ↦ nomatch heq
  | emptying hheld hcall hselected =>
    exact ⟨hheld, hcall, .releasing hheld (if_pos rfl) fun _ heq ↦ nomatch heq⟩

theorem release {next : Unit → Selecting Reply}
    (h : Stage caller holder history (.ask .release next)) :
    holder = some caller ∧ ∃ reply, next () = .done reply ∧ history.Answers caller reply ∧
      ∀ fault, reply = .resolved (.error fault) → history.content = none := by
  cases h with
  | resolving _ _ h => cases h
  | choosing hheld hcall hempty h =>
    cases h with
    | nothing hnone =>
      obtain ⟨choice, hcall?⟩ := hcall.call?_eq
      exact ⟨hheld, _, rfl, ⟨hcall.selected?_eq, choice, hnone ▸ hcall?⟩, fun _ _ ↦ hempty⟩
  | releasing hheld h hempty => exact ⟨hheld, _, rfl, h, hempty⟩

/-- Who gives up a call has selected nothing. -/
theorem abandon {next : Unit → Selecting Reply}
    (h : Stage caller holder history (.ask .abandon next)) :
    holder = some caller ∧ history.content = none ∧ history.selected? caller = none ∧
      ∃ breakdown, next () = .done (.resolved (.error (.givenUp breakdown))) := by
  cases h with
  | resolving _ _ h => cases h
  | choosing _ _ _ h => cases h
  | abandoning hheld hempty hselected => exact ⟨hheld, hempty, hselected, _, rfl⟩

theorem done {reply : Reply} (h : Stage caller holder history (.done reply)) :
    holder ≠ some caller ∧ history.Answers caller reply := by
  cases h with
  | resolving _ _ h => cases h
  | choosing _ _ _ h => cases h
  | returning hfree h => exact ⟨hfree, h⟩

end Stage

namespace Arena

variable {arena : Arena} {caller i : Nat} {rest : Option (Selecting Reply)}

@[simp]
theorem goOn_calls_self : (arena.goOn caller rest).calls caller = rest :=
  if_pos rfl

theorem goOn_calls_of_ne (h : i ≠ caller) : (arena.goOn caller rest).calls i = arena.calls i :=
  if_neg h

end Arena

structure Sound (arena : Arena) : Prop where
  cell_eq : arena.cell = History.content arena.history
  orderly : History.Orderly arena.history
  stage : ∀ caller rest, arena.calls caller = some rest →
    Stage caller arena.holder arena.history rest
  holder_inCall : ∀ caller, arena.holder = some caller → arena.calls caller ≠ none

namespace Sound

variable {arena : Arena} {caller : Nat}

theorem fresh : Sound Arena.fresh where
  cell_eq := rfl
  orderly := trivial
  stage _ _ h := nomatch h
  holder_inCall _ h := nomatch h

/-- A step after which nothing has happened that others can tell; the lock may have changed hands. -/
theorem quiet (h : Sound arena) {holder : Option Nat} (marked : Bool) {rest : Selecting Reply}
    (hothers : ∀ i ≠ caller, holder = some i ↔ arena.holder = some i)
    (hstage : Stage caller holder arena.history rest) :
    Sound { arena.goOn caller (some rest) with holder := holder, marked := marked } where
  cell_eq := h.cell_eq
  orderly := h.orderly
  stage i rest' hcalls := by
    change (arena.goOn caller (some rest)).calls i = some rest' at hcalls
    by_cases hi : i = caller
    · subst hi
      rw [Arena.goOn_calls_self] at hcalls
      exact Option.some.inj hcalls ▸ hstage
    · rw [Arena.goOn_calls_of_ne hi] at hcalls
      exact (h.stage i rest' hcalls).congr (hothers i hi)
  holder_inCall i hholder := by
    change (arena.goOn caller (some rest)).calls i ≠ none
    by_cases hi : i = caller
    · subst hi
      rw [Arena.goOn_calls_self]
      exact Option.some_ne_none rest
    · rw [Arena.goOn_calls_of_ne hi]
      exact h.holder_inCall i ((hothers i hi).mp hholder)

/-- A step with which something has happened; the lock stays as it is. -/
theorem told (h : Sound arena) {happening : Happening} {content : Option Algorithm}
    {rest : Option (Selecting Reply)}
    (hcontent : content = History.content ((caller, happening) :: arena.history))
    (hallows : History.Allows caller arena.history happening)
    (hwrites : happening.written? ≠ none → arena.holder = some caller)
    (hstage : ∀ rest', rest = some rest' →
      Stage caller arena.holder ((caller, happening) :: arena.history) rest')
    (hgone : rest = none → arena.holder ≠ some caller) :
    Sound { (arena.goOn caller rest).record caller happening with cell := content } where
  cell_eq := hcontent
  orderly := ⟨hallows, h.orderly⟩
  stage i rest' hcalls := by
    change (arena.goOn caller rest).calls i = some rest' at hcalls
    by_cases hi : i = caller
    · subst hi
      rw [Arena.goOn_calls_self] at hcalls
      exact hstage rest' hcalls
    · rw [Arena.goOn_calls_of_ne hi] at hcalls
      apply (h.stage i rest' hcalls).cons (Ne.symm hi)
      -- Were it a write, `caller` would hold the lock and not `i`.
      intro hheld
      by_contra hwritten
      exact hi (Option.some.inj (hheld.symm.trans (hwrites hwritten)))
  holder_inCall i hholder := by
    change (arena.goOn caller rest).calls i ≠ none
    by_cases hi : i = caller
    · subst hi
      rw [Arena.goOn_calls_self]
      exact fun hnone ↦ hgone hnone hholder
    · rw [Arena.goOn_calls_of_ne hi]
      exact h.holder_inCall i hholder

/-- Nobody else than its holder gets or loses the lock. -/
theorem holder_iff_of_release {i : Nat} (hholder : arena.holder = some caller) (hi : i ≠ caller) :
    none = some i ↔ arena.holder = some i := by
  rw [hholder, Option.some.injEq]
  exact ⟨nofun, fun heq ↦ absurd heq.symm hi⟩

theorem advance (h : Sound arena) (result : Attempt BenchResult) {rest : Selecting Reply}
    (hcalls : arena.calls caller = some rest) : Sound (arena.advance caller result rest) := by
  have hstage := h.stage caller rest hcalls
  match rest, hstage with
  | .done reply, hstage =>
    obtain ⟨hfree, hanswers⟩ := hstage.done
    exact h.told h.cell_eq hanswers (fun hne ↦ absurd rfl hne) nofun fun _ ↦ hfree
  | .ask .read next, hstage =>
    by_cases hnone : arena.holder = none
    · simp only [Arena.advance, if_pos hnone]
      apply h.quiet arena.marked (fun _ _ ↦ Iff.rfl)
      rw [h.cell_eq]
      exact hstage.read
    · simp only [Arena.advance, if_neg hnone]
      exact h
  | .ask .acquire next, hstage =>
    by_cases hnone : arena.holder = none
    · simp only [Arena.advance, if_pos hnone]
      apply h.quiet arena.marked
      · intro i hi
        rw [hnone, Option.some.injEq]
        exact ⟨fun heq ↦ absurd heq.symm hi, nofun⟩
      · rw [h.cell_eq]
        exact hstage.acquire
    · simp only [Arena.advance, if_neg hnone]
      exact h
  | .ask (.bench algorithm) next, hstage =>
    obtain ⟨-, hempty, -, hnext⟩ := hstage.bench
    have hallows : History.Allows caller arena.history (.benchmarked algorithm) := hempty
    apply h.told h.cell_eq hallows (fun hne ↦ absurd rfl hne)
    · rintro _ ⟨⟩
      exact hnext result
    · nofun
  | .ask (.note line) next, hstage =>
    have hallows : History.Allows caller arena.history (.noted line) := trivial
    apply h.told h.cell_eq hallows (fun hne ↦ absurd rfl hne)
    · rintro _ ⟨⟩
      exact hstage.note
    · nofun
  | .ask (.write content) next, hstage =>
    obtain ⟨hheld, hallows, hnext⟩ := hstage.write
    apply h.told rfl hallows (fun _ ↦ hheld)
    · rintro _ ⟨⟩
      exact hnext
    · nofun
  | .ask .release next, hstage =>
    obtain ⟨hheld, reply, hnext, hanswers, -⟩ := hstage.release
    apply h.quiet arena.marked (fun _ hi ↦ holder_iff_of_release hheld hi)
    rw [hnext]
    exact .returning nofun hanswers
  | .ask .abandon next, hstage =>
    obtain ⟨hheld, -, hselected, breakdown, hnext⟩ := hstage.abandon
    apply h.quiet true (fun _ hi ↦ holder_iff_of_release hheld hi)
    rw [hnext]
    exact .returning nofun hselected

theorem step (processor : Processor) (h : Sound arena) (action : Arena.Action) :
    Sound (arena.step processor action) := by
  cases action with
  | call caller call =>
    cases hcalls : arena.calls caller with
    | some rest =>
      simp only [Arena.step, hcalls]
      exact h
    | none =>
      simp only [Arena.step, hcalls]
      have hallows : History.Allows caller arena.history (.called call) := trivial
      apply h.told h.cell_eq hallows (fun hne ↦ absurd rfl hne)
      · rintro _ ⟨⟩
        exact .routine processor call fun hheld ↦ h.holder_inCall caller hheld hcalls
      · nofun
  | step caller result =>
    cases hcalls : arena.calls caller with
    | some rest =>
      simp only [Arena.step, hcalls]
      exact h.advance result hcalls
    | none =>
      simp only [Arena.step, hcalls]
      exact h

theorem run (processor : Processor) (h : Sound arena) (actions : List Arena.Action) :
    Sound (arena.run processor actions) := by
  induction actions generalizing arena with
  | nil => exact h
  | cons action actions ih => exact ih (h.step processor action)

end Sound

end Hashwork.Selection
