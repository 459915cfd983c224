import Hashwork.Routine

/-!
# Traces of routines

A trace lists what a routine asked and which answers it got.  A statement about all traces holds in all
surroundings, whatever they answer.  Surroundings with a state answer by that state; a run in them has a
trace that leads from the first state to the last.
-/

namespace Hashwork.Routine

variable {E E' : Type} {R : E → Type} {R' : E' → Type} {α β : Type}

/-- Something asked, with the answer to it. -/
abbrev Exchange (R : E → Type) := (e : E) × R e

inductive Trace : Routine E R α → List (Exchange R) → α → Prop
  | done (a : α) : Trace (.done a) [] a
  | ask {e : E} {next : R e → Routine E R α} (answer : R e) {t : List (Exchange R)} {a : α}
    (h : Trace (next answer) t a) : Trace (.ask e next) (⟨e, answer⟩ :: t) a

@[simp]
theorem trace_done_iff {a b : α} {t : List (Exchange R)} :
    Trace (.done a) t b ↔ t = [] ∧ b = a := by
  constructor
  · intro h
    cases h
    exact ⟨rfl, rfl⟩
  · rintro ⟨rfl, rfl⟩
    exact .done _

theorem trace_ask_iff {e : E} {next : R e → Routine E R α} {t : List (Exchange R)} {a : α} :
    Trace (.ask e next) t a ↔ ∃ answer t', t = ⟨e, answer⟩ :: t' ∧ Trace (next answer) t' a := by
  constructor
  · intro h
    cases h with
    | ask answer h => exact ⟨answer, _, rfl, h⟩
  · rintro ⟨answer, t', rfl, h⟩
    exact .ask answer h

/-- A trace of two routines in succession is one of the first and then one of the second. -/
theorem trace_bind_iff {r : Routine E R α} {f : α → Routine E R β} {t : List (Exchange R)} {b : β} :
    Trace (r.bind f) t b ↔ ∃ t₁ t₂ a, t = t₁ ++ t₂ ∧ Trace r t₁ a ∧ Trace (f a) t₂ b := by
  induction r generalizing t with
  | done a =>
    simp only [bind, trace_done_iff]
    constructor
    · intro h
      exact ⟨[], t, a, rfl, ⟨rfl, rfl⟩, h⟩
    · rintro ⟨t₁, t₂, a', rfl, ⟨rfl, rfl⟩, h⟩
      exact h
  | ask e next ih =>
    simp only [bind, trace_ask_iff, ih]
    constructor
    · rintro ⟨answer, t', rfl, t₁, t₂, a, rfl, h₁, h₂⟩
      exact ⟨⟨e, answer⟩ :: t₁, t₂, a, rfl, ⟨answer, t₁, rfl, h₁⟩, h₂⟩
    · rintro ⟨t₁, t₂, a, rfl, ⟨answer, t', rfl, h₁⟩, h₂⟩
      exact ⟨answer, t' ++ t₂, rfl, t', t₂, a, rfl, h₁, h₂⟩

/-- Among richer surroundings a routine asks the same things under other names. -/
theorem trace_of_embed {into : E → E'} {back : (e : E) → R' (into e) → R e} {r : Routine E R α}
    {t : List (Exchange R')} {a : α} (h : Trace (r.embed into back) t a) :
    ∃ asked : List ((e : E) × R' (into e)),
      t = asked.map (fun x ↦ ⟨into x.1, x.2⟩) ∧
        Trace r (asked.map fun x ↦ ⟨x.1, back x.1 x.2⟩) a := by
  induction r generalizing t with
  | done b =>
    obtain ⟨rfl, rfl⟩ := trace_done_iff.mp h
    exact ⟨[], rfl, .done _⟩
  | ask e next ih =>
    obtain ⟨answer, t', rfl, h'⟩ := trace_ask_iff.mp h
    obtain ⟨asked, rfl, htrace⟩ := ih _ h'
    exact ⟨⟨e, answer⟩ :: asked, rfl, .ask (back e answer) htrace⟩

/-- What goes on after a routine matters only for the results that it has a trace to. -/
theorem bind_congr_of_trace {r : Routine E R α} {f g : α → Routine E R β}
    (h : ∀ t a, Trace r t a → f a = g a) : r.bind f = r.bind g := by
  induction r with
  | done a => exact h [] a (.done a)
  | ask e next ih =>
    apply congrArg (ask e)
    funext answer
    apply ih answer
    intro t a htrace
    exact h _ a (.ask answer htrace)

theorem run_bind {m : Type → Type} [Monad m] [LawfulMonad m] (answer : (e : E) → m (R e))
    (r : Routine E R α) (f : α → Routine E R β) :
    (r.bind f).run answer = r.run answer >>= fun a ↦ (f a).run answer := by
  induction r with
  | done a => simp only [bind, run, pure_bind]
  | ask e next ih => simp only [bind, run, ih, bind_assoc]

/-- A run in which the same thing is always answered the same way has a trace with these answers. -/
theorem exists_trace_run_answer (answer : (e : E) → R e) (r : Routine E R α) :
    ∃ t, Trace r t (r.run (m := Id) answer) ∧ ∀ exchange ∈ t, exchange.2 = answer exchange.1 := by
  induction r with
  | done a => exact ⟨[], .done a, fun _ hmem ↦ absurd hmem List.not_mem_nil⟩
  | ask e next ih =>
    obtain ⟨t, htrace, hanswers⟩ := ih (answer e)
    refine ⟨⟨e, answer e⟩ :: t, ?_, List.forall_mem_cons.mpr ⟨rfl, hanswers⟩⟩
    exact trace_ask_iff.mpr ⟨answer e, t, rfl, htrace⟩

section Progress

/-- A routine that has asked this and was answered like this has `rest` left to do. -/
inductive Leads (r : Routine E R α) : List (Exchange R) → Routine E R α → Prop
  | refl : Leads r [] r
  | step {t : List (Exchange R)} {e : E} {next : R e → Routine E R α}
    (h : Leads r t (.ask e next)) (answer : R e) : Leads r (t ++ [⟨e, answer⟩]) (next answer)

theorem Leads.trace_append {r rest : Routine E R α} {t t' : List (Exchange R)} {a : α}
    (h : Leads r t rest) (htrace : Trace rest t' a) : Trace r (t ++ t') a := by
  induction h generalizing t' with
  | refl => exact htrace
  | step _ answer ih =>
    rw [List.append_assoc]
    exact ih (.ask answer htrace)

theorem Leads.trace {r : Routine E R α} {t : List (Exchange R)} {a : α} (h : Leads r t (.done a)) :
    Trace r t a := by
  have htrace := h.trace_append (.done a)
  rwa [List.append_nil] at htrace

/-- Every routine comes to an end somehow if everything has some answer. -/
theorem exists_trace (hanswer : ∀ e, Nonempty (R e)) (r : Routine E R α) : ∃ t a, Trace r t a := by
  obtain ⟨t, htrace, -⟩ := exists_trace_run_answer (fun e ↦ Classical.choice (hanswer e)) r
  exact ⟨t, _, htrace⟩

end Progress

section Surroundings

variable {S : Type} (answer : (e : E) → StateM S (R e))

/-- Surroundings in the first state give these answers and end in the last state. -/
inductive Answered : S → List (Exchange R) → S → Prop
  | nil (s : S) : Answered s [] s
  | cons {s s' : S} (e : E) {t : List (Exchange R)} (h : Answered ((answer e).run s).2 t s') :
    Answered s (⟨e, ((answer e).run s).1⟩ :: t) s'

theorem answered_cons {s s' : S} {e : E} {a : R e} {t : List (Exchange R)}
    (h : Answered answer s (⟨e, a⟩ :: t) s') :
    a = ((answer e).run s).1 ∧ Answered answer ((answer e).run s).2 t s' := by
  cases h with
  | cons _ h => exact ⟨rfl, h⟩

/-- Every run in surroundings with a state has a trace. -/
theorem exists_trace_run (r : Routine E R α) (s : S) :
    ∃ t, Trace r t ((r.run answer).run s).1 ∧ Answered answer s t ((r.run answer).run s).2 := by
  induction r generalizing s with
  | done a => exact ⟨[], .done a, .nil s⟩
  | ask e next ih =>
    obtain ⟨t, htrace, hanswered⟩ := ih ((answer e).run s).1 ((answer e).run s).2
    exact ⟨⟨e, ((answer e).run s).1⟩ :: t, .ask _ htrace, .cons e hanswered⟩

end Surroundings

section Binding

variable {γ : Type}

theorem bind_done (r : Routine E R α) : r.bind .done = r := by
  induction r with
  | done a => rfl
  | ask e next ih => exact congrArg (ask e) (funext ih)

theorem bind_assoc (r : Routine E R α) (f : α → Routine E R β) (g : β → Routine E R γ) :
    (r.bind f).bind g = r.bind fun a ↦ (f a).bind g := by
  induction r with
  | done a => rfl
  | ask e next ih => exact congrArg (ask e) (funext ih)

theorem embed_bind (into : E → E') (back : (e : E) → R' (into e) → R e) (r : Routine E R α)
    (f : α → Routine E R β) :
    (r.bind f).embed into back = (r.embed into back).bind fun a ↦ (f a).embed into back := by
  induction r with
  | done a => rfl
  | ask e next ih => exact congrArg (ask (into e)) (funext fun answer ↦ ih (back e answer))

end Binding

end Hashwork.Routine
