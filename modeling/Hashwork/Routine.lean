/-!
# Routines

A routine is a computation that asks its surroundings for something at certain points and goes on with
the answer.  What it may ask, and the type of each answer, are parameters.  Because a routine is a
plain tree, one definition serves a program that answers from the real world, a test that answers from
a script, and a proof about all possible answers or all ways of interleaving several routines.
-/

namespace Hashwork

inductive Routine (E : Type) (R : E → Type) (α : Type) where
  | done (result : α)
  | ask (event : E) (next : R event → Routine E R α)

namespace Routine

variable {E E' : Type} {R : E → Type} {R' : E' → Type} {α β : Type}

def bind : Routine E R α → (α → Routine E R β) → Routine E R β
  | done a, f => f a
  | ask e next, f => ask e fun answer ↦ (next answer).bind f

instance : Monad (Routine E R) where
  pure := done
  bind := bind

/-- The routine that asks for one thing and ends with the answer. -/
def request (e : E) : Routine E R (R e) :=
  ask e done

/-- The same routine among richer surroundings: each event becomes one of theirs. -/
def embed (into : E → E') (back : (e : E) → R' (into e) → R e) :
    Routine E R α → Routine E' R' α
  | done a => done a
  | ask e next => ask (into e) fun answer ↦ (next (back e answer)).embed into back

/-- Runs a routine to its end, with every answer computed by `answer`. -/
def run {m : Type → Type} [Monad m] (answer : (e : E) → m (R e)) : Routine E R α → m α
  | done a => pure a
  | ask e next => do (next (← answer e)).run answer

@[simp]
theorem pure_eq_done (a : α) : (pure a : Routine E R α) = done a := rfl

@[simp]
theorem done_bind (a : α) (f : α → Routine E R β) : (done a >>= f) = f a := rfl

@[simp]
theorem ask_bind (e : E) (next : R e → Routine E R α) (f : α → Routine E R β) :
    (ask e next >>= f) = ask e fun answer ↦ next answer >>= f := rfl

end Routine

/-- A routine that consults a single yes-or-no signal. -/
abbrev Polling := Routine Unit fun _ ↦ Bool

end Hashwork
