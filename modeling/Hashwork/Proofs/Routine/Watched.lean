import Hashwork.Proofs.Routine.Trace

/-!
# Watched routines

A watched routine sets marks at certain points, which nobody answers.  With the marks taken out it asks what
the routine asks that is watched, and it has the same traces.
-/

namespace Hashwork.Routine

variable {E M : Type} {R : E → Type} {α β : Type}

/-- A routine that may set marks besides asking. -/
abbrev Watched (M : Type) (R : E → Type) : Type → Type :=
  Routine (E ⊕ M) (Sum.elim R fun _ ↦ Unit)

abbrev WatchedExchange (M : Type) (R : E → Type) : Type :=
  Exchange (Sum.elim R fun _ : M ↦ Unit)

/-- Sets a mark and goes on. -/
def mark (m : M) (r : Watched M R α) : Watched M R α :=
  .ask (.inr m) fun _ ↦ r

/-- The routine without its marks. -/
def erase : Watched M R α → Routine E R α
  | .done a => .done a
  | .ask (.inl e) next => .ask e fun answer ↦ (next answer).erase
  | .ask (.inr _) next => (next ()).erase

/-- A routine as one that sets no marks. -/
def unmarked (r : Routine E R α) : Watched M R α :=
  r.embed .inl fun _ answer ↦ answer

def askedIn (t : List (WatchedExchange M R)) : List (Exchange R) :=
  t.filterMap fun
    | ⟨.inl e, answer⟩ => some ⟨e, answer⟩
    | ⟨.inr _, _⟩ => none

def marksIn (t : List (WatchedExchange M R)) : List M :=
  t.filterMap fun
    | ⟨.inl _, _⟩ => none
    | ⟨.inr m, _⟩ => some m

@[simp]
theorem askedIn_append (t t' : List (WatchedExchange M R)) :
    askedIn (t ++ t') = askedIn t ++ askedIn t' :=
  List.filterMap_append

@[simp]
theorem marksIn_append (t t' : List (WatchedExchange M R)) :
    marksIn (t ++ t') = marksIn t ++ marksIn t' :=
  List.filterMap_append

@[simp]
theorem erase_mark (m : M) (r : Watched M R α) : (mark m r).erase = r.erase := rfl

theorem erase_bind (r : Watched M R α) (f : α → Watched M R β) :
    (r.bind f).erase = r.erase.bind fun a ↦ (f a).erase := by
  induction r with
  | done a => rfl
  | ask e next ih =>
    cases e with
    | inl e => exact congrArg (ask e) (funext ih)
    | inr m => exact ih ()

@[simp]
theorem erase_unmarked (r : Routine E R α) : (unmarked r : Watched M R α).erase = r := by
  induction r with
  | done a => rfl
  | ask e next ih => exact congrArg (ask e) (funext ih)

theorem trace_erase {r : Watched M R α} {t : List (WatchedExchange M R)} {a : α} (h : Trace r t a) :
    Trace r.erase (askedIn t) a := by
  induction h with
  | done a => exact .done a
  | @ask e next answer t a _ ih =>
    cases e with
    | inl e => exact trace_ask_iff.mpr ⟨answer, _, rfl, ih⟩
    | inr m => exact ih

/-- The traces without their marks are those of the routine without its marks. -/
theorem trace_erase_iff {r : Watched M R α} {t : List (Exchange R)} {a : α} :
    Trace r.erase t a ↔ ∃ t' : List (WatchedExchange M R), askedIn t' = t ∧ Trace r t' a := by
  constructor
  · intro h
    induction r generalizing t with
    | done b =>
      obtain ⟨rfl, rfl⟩ := trace_done_iff.mp h
      exact ⟨[], rfl, .done _⟩
    | ask e next ih =>
      cases e with
      | inl e =>
        obtain ⟨answer, later, rfl, hrest⟩ := trace_ask_iff.mp h
        obtain ⟨t', rfl, htrace⟩ := ih answer hrest
        exact ⟨⟨.inl e, answer⟩ :: t', rfl, trace_ask_iff.mpr ⟨answer, t', rfl, htrace⟩⟩
      | inr m =>
        obtain ⟨t', rfl, htrace⟩ := ih () h
        exact ⟨⟨.inr m, ()⟩ :: t', rfl, trace_ask_iff.mpr ⟨(), t', rfl, htrace⟩⟩
  · rintro ⟨t', rfl, h⟩
    exact trace_erase h

theorem trace_mark_iff {m : M} {r : Watched M R α} {t : List (WatchedExchange M R)} {a : α} :
    Trace (mark m r) t a ↔ ∃ t', t = ⟨.inr m, ()⟩ :: t' ∧ Trace r t' a := by
  rw [mark, trace_ask_iff]
  constructor
  · rintro ⟨⟨⟩, t', rfl, h⟩
    exact ⟨t', rfl, h⟩
  · rintro ⟨t', rfl, h⟩
    exact ⟨(), t', rfl, h⟩

end Hashwork.Routine
