import Hashwork.Proofs.Routine.Trace

/-!
# Routines that pass breakdowns on

Some answers of the surroundings are breakdowns.  A routine passes them on if it fails with each breakdown and
without one never does.  What is put together from such routines is one too, and so is what becomes of one
when others answer for its surroundings.
-/

namespace Hashwork.Routine

variable {E E' : Type} {R : E → Type} {R' : E' → Type} {α β : Type}

/-- The routine ends in a bad result if there is a breakdown on the way, and in a good one if there is none. -/
def Propagates (broken : Exchange R → Prop) (bad good : α → Prop) (r : Routine E R α) : Prop :=
  ∀ t a, Trace r t a →
    (∃ exchange ∈ t, broken exchange) ∧ bad a ∨ (¬ ∃ exchange ∈ t, broken exchange) ∧ good a

/-- The routine never meets a breakdown. -/
def Quiet (broken : Exchange R → Prop) (r : Routine E R α) : Prop :=
  Propagates broken (fun _ ↦ False) (fun _ ↦ True) r

variable {broken : Exchange R → Prop} {broken' : Exchange R' → Prop} {bad good bad' good' : α → Prop}
  {r : Routine E R α}

theorem exists_mem_cons_iff {exchange : Exchange R} {t : List (Exchange R)} :
    (∃ x ∈ exchange :: t, broken x) ↔ broken exchange ∨ ∃ x ∈ t, broken x := by
  simp only [List.mem_cons, or_and_right, exists_or, exists_eq_left]

theorem exists_mem_append_iff {t t' : List (Exchange R)} :
    (∃ x ∈ t ++ t', broken x) ↔ (∃ x ∈ t, broken x) ∨ ∃ x ∈ t', broken x := by
  simp only [List.mem_append, or_and_right, exists_or]

namespace Propagates

theorem done {a : α} (h : good a) : Propagates broken bad good (.done a) := by
  intro t b htrace
  obtain ⟨rfl, rfl⟩ := trace_done_iff.mp htrace
  exact .inr ⟨by simp, h⟩

/-- A single answer may be a breakdown, which ends the routine. -/
theorem ask {e : E} {next : R e → Routine E R α}
    (h : ∀ answer, broken ⟨e, answer⟩ ∧ (∃ a, next answer = .done a ∧ bad a) ∨
      ¬ broken ⟨e, answer⟩ ∧ Propagates broken bad good (next answer)) :
    Propagates broken bad good (.ask e next) := by
  intro t a htrace
  obtain ⟨answer, rest, rfl, hrest⟩ := trace_ask_iff.mp htrace
  rw [exists_mem_cons_iff]
  rcases h answer with ⟨hbroken, b, hdone, hb⟩ | ⟨hsafe, hnext⟩
  · rw [hdone] at hrest
    obtain ⟨-, rfl⟩ := trace_done_iff.mp hrest
    exact .inl ⟨.inl hbroken, hb⟩
  · rw [or_iff_right hsafe]
    exact hnext rest a hrest

theorem ask_safe {e : E} {next : R e → Routine E R α} (hsafe : ∀ answer, ¬ broken ⟨e, answer⟩)
    (h : ∀ answer, Propagates broken bad good (next answer)) :
    Propagates broken bad good (.ask e next) :=
  .ask fun answer ↦ .inr ⟨hsafe answer, h answer⟩

theorem mono (h : Propagates broken bad good r) (hbad : ∀ a, bad a → bad' a)
    (hgood : ∀ a, good a → good' a) : Propagates broken bad' good' r :=
  fun t a htrace ↦ (h t a htrace).imp (And.imp_right (hbad a)) (And.imp_right (hgood a))

/-- After a breakdown the rest of the routine has no say any more. -/
theorem bind {bad' good' : β → Prop} {f : α → Routine E R β} (h : Propagates broken bad good r)
    (hbad : ∀ a, bad a → ∃ b, f a = .done b ∧ bad' b)
    (hgood : ∀ a, good a → Propagates broken bad' good' (f a)) :
    Propagates broken bad' good' (r.bind f) := by
  intro t b htrace
  obtain ⟨t₁, t₂, a, rfl, hfirst, hrest⟩ := trace_bind_iff.mp htrace
  rw [exists_mem_append_iff]
  rcases h t₁ a hfirst with ⟨hbroken, ha⟩ | ⟨hwhole, ha⟩
  · obtain ⟨b', hdone, hb⟩ := hbad a ha
    rw [hdone] at hrest
    obtain ⟨-, rfl⟩ := trace_done_iff.mp hrest
    exact .inl ⟨.inl hbroken, hb⟩
  · rw [or_iff_right hwhole]
    exact hgood a ha t₂ b hrest

end Propagates

theorem Quiet.bind {bad good : β → Prop} {f : α → Routine E R β} (h : Quiet broken r)
    (hrest : ∀ a, Propagates broken bad good (f a)) : Propagates broken bad good (r.bind f) :=
  Propagates.bind h (fun _ ha ↦ ha.elim) fun a _ ↦ hrest a

section Answering

variable {answer : (e : E) → Routine E' R' (R e)}

/-- A run in which routines answer has a trace of what it asks them, with the same breakdowns. -/
theorem exists_trace_of_run
    (hanswer : ∀ e,
      Propagates broken' (fun a ↦ broken ⟨e, a⟩) (fun a ↦ ¬ broken ⟨e, a⟩) (answer e))
    {r : Routine E R α} {t : List (Exchange R')} {a : α} (h : Trace (r.run answer) t a) :
    ∃ asked, Trace r asked a ∧
      ((∃ exchange ∈ t, broken' exchange) ↔ ∃ exchange ∈ asked, broken exchange) := by
  induction r generalizing t with
  | done b =>
    obtain ⟨rfl, rfl⟩ := trace_done_iff.mp h
    exact ⟨[], .done _, by simp⟩
  | ask e next ih =>
    obtain ⟨t₁, t₂, answered, rfl, hfirst, hrest⟩ := trace_bind_iff.mp h
    obtain ⟨asked, htrace, hiff⟩ := ih answered hrest
    refine ⟨⟨e, answered⟩ :: asked, .ask answered htrace, ?_⟩
    have hhere : (∃ exchange ∈ t₁, broken' exchange) ↔ broken ⟨e, answered⟩ := by
      rcases hanswer e t₁ answered hfirst with ⟨hbroken, h⟩ | ⟨hwhole, h⟩
      · exact iff_of_true hbroken h
      · exact iff_of_false hwhole h
    rw [exists_mem_append_iff, exists_mem_cons_iff, hhere, hiff]

theorem Propagates.run
    (hanswer : ∀ e,
      Propagates broken' (fun a ↦ broken ⟨e, a⟩) (fun a ↦ ¬ broken ⟨e, a⟩) (answer e))
    (h : Propagates broken bad good r) : Propagates broken' bad good (r.run answer) := by
  intro t a htrace
  obtain ⟨asked, hasked, hiff⟩ := exists_trace_of_run hanswer htrace
  rw [hiff]
  exact h asked a hasked

end Answering

end Hashwork.Routine
