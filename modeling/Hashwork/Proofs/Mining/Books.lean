import Hashwork.Proofs.Mining.Delivery
import Hashwork.Proofs.Mining.Processed

/-!
# The books of a crew

The books tell what the workers have added to the tally, and what the collector has taken out of it and reported.
They are kept beside the shift.  Nothing gets lost on the way: what was added was taken or is still there, a
worker adds what its scans report, and the collector sums up what it takes.
-/

namespace Hashwork.Mining

open Worker (talliesIn)

structure Books where
  /-- What was added to the tally, each number with its worker. -/
  added : List (Nat × Nat)
  /-- What was taken out of the tally. -/
  taken : List Nat
  speeds : List HashRate

namespace Books

def add (books : Books) (i : Nat) (tallies : List Nat) : Books :=
  { books with added := books.added ++ tallies.map fun nonces ↦ (i, nonces) }

/-- Enters what a crew is about to do. -/
def record (job : Job) (crew : Crew) (books : Books) : Crew.Action → Books
  | .worker i =>
    if i < job.miner.threads then
      match crew.workers i with
      | .working (.ask e _) => books.add i e.tallies
      | _ => books
    else books
  | .collector =>
    match crew.collector with
    | .collecting (.ask .takeTally _) => { books with taken := books.taken ++ [crew.tally] }
    | .collecting (.ask (.reportSpeed rate) _) => { books with speeds := books.speeds ++ [rate] }
    | _ => books
  | _ => books

end Books

/-- A shift with its books. -/
structure Audit where
  shift : Shift
  books : Books

def Job.audit (job : Job) (flag : Bool) (now : Instant) : Audit :=
  ⟨job.open flag now, ⟨[], [], []⟩⟩

namespace Audit

def step (job : Job) (a : Audit) (action : Crew.Action) : Audit :=
  ⟨a.shift.step job action, a.books.record job a.shift.crew action⟩

def run (job : Job) (a : Audit) (actions : List Crew.Action) : Audit :=
  actions.foldl (step job) a

theorem run_concat (job : Job) (a : Audit) (actions : List Crew.Action) (action : Crew.Action) :
    a.run job (actions ++ [action]) = (a.run job actions).step job action :=
  List.foldl_concat ..

/-- The books only watch. -/
theorem run_shift (job : Job) (a : Audit) (actions : List Crew.Action) :
    (a.run job actions).shift = a.shift.run job actions := by
  induction actions generalizing a with
  | nil => rfl
  | cons action actions ih => exact ih (a.step job action)

end Audit

section Workers

variable {job : Job} {s s' : Shift} {books : Books} {i : Nat}

/-- Whether worker `i` is about to ask for something. -/
def Asking (job : Job) (crew : Crew) (i : Nat) : Prop :=
  i < job.miner.threads ∧ ∃ e next, crew.workers i = .working (.ask e next)

/-- A worker that asks adds to the tally what its event says. -/
theorem step_asking {e : Worker.Event} {next : e.Answer → Worker.Working Worker.Turn}
    (hi : i < job.miner.threads) (hworker : s.crew.workers i = .working (.ask e next)) :
    books.record job s.crew (.worker i) = books.add i e.tallies ∧
      (s.crew.step job (.worker i)).tally = s.crew.tally + e.tallies.sum := by
  simp only [Books.record, Crew.step, hworker, if_pos hi, true_and]
  cases e <;> rfl

theorem step_not_asking (hnot : ¬ Asking job s.crew i) :
    books.record job s.crew (.worker i) = books ∧
      (s.crew.step job (.worker i)).tally = s.crew.tally := by
  by_cases hi : i < job.miner.threads
  · cases hworker : s.crew.workers i with
    | ended item => simp only [Books.record, Crew.step, hworker, if_pos hi, and_self]
    | working rest =>
      cases rest with
      | ask e next => exact absurd ⟨hi, e, next, hworker⟩ hnot
      | done turn =>
        simp only [Books.record, Crew.step, hworker, if_pos hi, true_and]
        cases turn <;> rfl
  · simp only [Books.record, Crew.step, if_neg hi, true_and]
    split <;> rfl

/-- What worker `i` has added to the tally, for the state that it is in. -/
inductive Account (job : Job) (i : Nat) (passed : List Portion) (added : List Nat) (reached : Nat) :
    WorkerState → Prop
  | working {item : WorkItem} {t : Worker.Transcript} {rest : Worker.Working Worker.Turn}
    (htemplate : item.template = job.item.template) (hnext : item.nextNonce = reached)
    (hleads : Routine.Leads (Worker.turn job.miner.scanner (job.portion i).finish item) t rest)
    (hadded : added.sum = processedIn job.item passed + (talliesIn t).sum) :
    Account job i passed added reached (.working rest)
  | ended {item : WorkItem} (hadded : added.sum = processedIn job.item passed) :
    Account job i passed added reached (.ended item)

variable {passed : List Portion} {added : List Nat} {reached : Nat}

theorem Account.ask {e : Worker.Event} {next : e.Answer → Worker.Working Worker.Turn} {answer : e.Answer}
    (h : Account job i passed added reached (.working (.ask e next))) :
    Account job i passed (added ++ e.tallies) reached (.working (next answer)) := by
  cases h with
  | working htemplate hnext hleads hadded =>
    refine .working htemplate hnext (hleads.step answer) ?_
    rw [List.sum_append, hadded, Worker.talliesIn_append, Worker.talliesIn_singleton, List.sum_append,
      Nat.add_assoc]

theorem sum_talliesIn_of_template {item : WorkItem} {t : Worker.Transcript} {turn : Worker.Turn}
    (hi : i < job.miner.threads) (hserved : job.Served) (htemplate : item.template = job.item.template)
    (htrace : Routine.Trace (Worker.turn job.miner.scanner (job.portion i).finish item) t turn) :
    (talliesIn t).sum = job.item.processed item.nextNonce turn.item.nextNonce := by
  obtain ⟨kernel, hkernel, hexact⟩ := hserved.exists_kernel
  rw [← WorkItem.processed_eq_of_template htemplate]
  refine Worker.sum_talliesIn ?_ hexact ?_ (portion_finish_le hi) htrace
  · exact (Scanner.kernelFor_eq_of_template htemplate _).trans hkernel
  · exact (WorkItem.consistent_iff_of_template htemplate).mpr hserved.consistent

theorem Account.turn {turn : Worker.Turn}
    (h : Account job i passed added reached (.working (.done turn))) (hi : i < job.miner.threads)
    (hserved : job.Served) :
    Account job i
      (if reached < turn.item.nextNonce then passed ++ [⟨reached, turn.item.nextNonce⟩] else passed)
      added turn.item.nextNonce (job.after i turn) := by
  cases h with
  | @working item t _ htemplate hnext hleads hadded =>
    have hturned := turned_of_template hi hserved htemplate hleads.trace
    have hle : reached ≤ turn.item.nextNonce := hnext ▸ hturned.le
    have hadded' : added.sum = processedIn job.item
        (if reached < turn.item.nextNonce then passed ++ [⟨reached, turn.item.nextNonce⟩]
          else passed) := by
      rw [hadded, sum_talliesIn_of_template hi hserved htemplate hleads.trace, hnext]
      split
      · simp [processedIn]
      · rename_i hnot
        rw [Nat.le_antisymm (Nat.le_of_not_lt hnot) hle, WorkItem.processed_self, Nat.add_zero]
    cases turn with
    | again other => exact .working (hturned.template_eq.trans htemplate) rfl .refl hadded'
    | last other => exact .ended hadded'

/-- What all workers have added, each by itself. -/
def Accounts (job : Job) (s : Shift) (books : Books) : Prop :=
  ∀ i < job.miner.threads, Account job i (ofWorker i s.ledger.passed) (ofWorker i books.added)
    (s.ledger.reached i) (s.crew.workers i)

theorem ofWorker_add_self (books : Books) (i : Nat) (tallies : List Nat) :
    ofWorker i (books.add i tallies).added = ofWorker i books.added ++ tallies := by
  rw [Books.add, ofWorker_append, ofWorker_map_self]

theorem ofWorker_add_of_ne {j : Nat} (books : Books) (hne : j ≠ i) (tallies : List Nat) :
    ofWorker j (books.add i tallies).added = ofWorker j books.added := by
  rw [Books.add, ofWorker_append, ofWorker_map_of_ne hne, List.append_nil]

theorem Accounts.worker (h : Accounts job s books) (hmove : Move job s (.worker i) s')
    (hserved : job.Served) : Accounts job s' (books.record job s.crew (.worker i)) := by
  cases hmove with
  | @ask _ e next answer tally log hi hworker hgiven =>
    rw [(step_asking hi hworker).1]
    intro j hj
    have haccount := h j hj
    by_cases hji : j = i
    · subst hji
      rw [hworker] at haccount
      rw [ofWorker_add_self]
      exact (setWorker_workers_self s.crew j _).symm ▸ haccount.ask
    · rw [ofWorker_add_of_ne books hji]
      exact (setWorker_workers_of_ne s.crew _ hji).symm ▸ haccount
  | @turn _ turn hi hworker =>
    have hnot : ¬ Asking job s.crew i := by
      rintro ⟨-, e, next, hasking⟩
      cases hworker.symm.trans hasking
    rw [(step_not_asking hnot).1]
    intro j hj
    by_cases hji : j = i
    · subst hji
      rw [setWorker_workers_self, Ledger.reach_reached_self, ofWorker_reach_self]
      exact (hworker ▸ h j hj).turn hi hserved
    · rw [setWorker_workers_of_ne _ _ hji, Ledger.reach_reached_of_ne _ _ hji,
        ofWorker_reach_of_ne _ _ hji]
      exact h j hj
  | rest hrest =>
    have hnot : ¬ Asking job s.crew i := by
      rintro ⟨hi, e, next, hasking⟩
      obtain ⟨item, hended⟩ := hrest hi
      cases hended.symm.trans hasking
    rw [(step_not_asking hnot).1]
    exact h
  | other hother => exact absurd rfl (hother i)

/-- Nobody adds to the tally any more when all workers have ended. -/
theorem step_worker_of_allEnded (hended : job.allEnded s.crew = true) (i : Nat) :
    s.step job (.worker i) = s := by
  have hmove := move_step job s (.worker i)
  generalize s.step job (.worker i) = s' at hmove ⊢
  cases hmove with
  | ask answer tally log hi hworker => exact absurd hworker (ne_working_of_allEnded hended hi)
  | turn hi hworker => exact absurd hworker (ne_working_of_allEnded hended hi)
  | rest => rfl
  | other hother => exact absurd rfl (hother i)

end Workers

section Collectors

open Collector

variable {job : Job} {crew crew' : Crew} {books : Books}

/-- Neither the tally nor the speeds are touched by this, nor is the channel looked into. -/
def Collector.Event.isAside : Event → Prop
  | .receive | .takeTally | .reportSpeed _ => False
  | _ => True

/-- What is left of a turn takes the tally once, reports it and adds it to the total. -/
inductive Collector.Reports (total : Nat) : Collecting Turn → Prop
  | take (started : Instant) (elapsed : Duration) :
    Reports total (.ask .takeTally fun nonces ↦
      .ask (.reportSpeed ⟨nonces.toUInt64, elapsed⟩) fun _ ↦ .done (.again started (total + nonces)))
  | ask {e : Event} {next : e.Answer → Collecting Turn} (haside : e.isAside)
    (hnext : ∀ answer, Reports total (next answer)) : Reports total (.ask e next)

theorem Collector.reports_report (started : Instant) (total : Nat) :
    Reports total (report started total) :=
  .ask trivial fun next ↦ .ask trivial fun now ↦ .take next (now.since started)

theorem Collector.Reports.watchDeadline {total : Nat} {rest : Collecting Turn} (h : Reports total rest)
    (deadline : Option Instant) : Reports total (watchDeadline deadline rest) := by
  cases deadline with
  | none => exact h
  | some deadline =>
    refine .ask trivial fun now ↦ ?_
    split
    · refine .ask trivial fun raised ↦ ?_
      split
      · exact h
      · exact .ask trivial fun _ ↦ .ask trivial fun _ ↦ h
    · exact h

/-- Every speed that was reported is of what was taken out of the tally for it. -/
def Books.Told (taken : List Nat) (speeds : List HashRate) : Prop :=
  speeds.map (·.hashes) = taken.map Nat.toUInt64

/-- Where the collector is, with what it has taken so far.  All but the latest has been reported. -/
inductive Collector.Cash (job : Job) (crew : Crew) : List Nat → List HashRate → CollectorState → Prop
  | beginning : Cash job crew [] [] (.collecting (begin job.deadline))
  | receiving {taken : List Nat} {speeds : List HashRate} (started : Instant)
    (htold : Books.Told taken speeds) :
    Cash job crew taken speeds (.collecting (turn job.deadline started taken.sum))
  | reporting {taken : List Nat} {speeds : List HashRate} {rest : Collecting Turn}
    (hreports : Reports taken.sum rest) (htold : Books.Told taken speeds) :
    Cash job crew taken speeds (.collecting rest)
  | speaking {taken : List Nat} {speeds : List HashRate} (nonces : Nat) (started : Instant)
    (elapsed : Duration) (htold : Books.Told taken speeds) :
    Cash job crew (taken ++ [nonces]) speeds (.collecting (.ask (.reportSpeed ⟨nonces.toUInt64, elapsed⟩)
      fun _ ↦ .done (.again started (taken.sum + nonces))))
  | again {taken : List Nat} {speeds : List HashRate} (started : Instant)
    (htold : Books.Told taken speeds) :
    Cash job crew taken speeds (.collecting (.done (.again started taken.sum)))
  | closing {taken : List Nat} {speeds : List HashRate} (htold : Books.Told taken speeds)
    (hended : job.allEnded crew = true) :
    Cash job crew taken speeds
      (.collecting (.ask .takeTally fun nonces ↦ .done (.last (taken.sum + nonces))))
  | leaving {taken : List Nat} {speeds : List HashRate} (remainder : Nat)
    (htold : Books.Told taken speeds) (hended : job.allEnded crew = true) (htally : crew.tally = 0) :
    Cash job crew (taken ++ [remainder]) speeds (.collecting (.done (.last (taken.sum + remainder))))
  | ended {taken : List Nat} {speeds : List HashRate} (remainder : Nat)
    (htold : Books.Told taken speeds) (hended : job.allEnded crew = true) (htally : crew.tally = 0) :
    Cash job crew (taken ++ [remainder]) speeds (.ended (taken.sum + remainder))

variable {taken : List Nat} {speeds : List HashRate} {collector : CollectorState}

theorem Collector.Cash.mono (h : Cash job crew taken speeds collector)
    (hended : job.allEnded crew = true → job.allEnded crew' = true ∧ crew'.tally = crew.tally) :
    Cash job crew' taken speeds collector := by
  cases h with
  | beginning => exact .beginning
  | receiving started htold => exact .receiving started htold
  | reporting hreports htold => exact .reporting hreports htold
  | speaking nonces started elapsed htold => exact .speaking nonces started elapsed htold
  | again started htold => exact .again started htold
  | closing htold h => exact .closing htold (hended h).1
  | leaving remainder htold h htally =>
    exact .leaving remainder htold (hended h).1 ((hended h).2.trans htally)
  | ended remainder htold h htally =>
    exact .ended remainder htold (hended h).1 ((hended h).2.trans htally)

theorem Books.Told.concat (h : Told taken speeds) (nonces : Nat) (elapsed : Duration) :
    Told (taken ++ [nonces]) (speeds ++ [⟨nonces.toUInt64, elapsed⟩]) := by
  rw [Told, List.map_append, List.map_append, h]
  rfl

/-- A look into the channel. -/
theorem Collector.Cash.receive {started : Instant} (htold : Books.Told taken speeds) :
    Cash job (crew.stepCollector job (turn job.deadline started taken.sum)) taken speeds
      (crew.stepCollector job (turn job.deadline started taken.sum)).collector := by
  have hreports := (reports_report started taken.sum).watchDeadline job.deadline
  cases hchannel : crew.channel with
  | cons share rest =>
    simp only [turn, Crew.stepCollector, hchannel]
    exact .reporting (.ask trivial fun _ ↦ hreports) htold
  | nil =>
    simp only [turn, Crew.stepCollector, hchannel]
    by_cases hended : job.allEnded crew = true
    · rw [if_pos hended]
      exact .closing htold hended
    · rw [if_neg hended]
      exact .reporting hreports htold

theorem Collector.Cash.step (h : Cash job crew books.taken books.speeds crew.collector) :
    Cash job (crew.step job .collector) (books.record job crew .collector).taken
      (books.record job crew .collector).speeds (crew.step job .collector).collector := by
  obtain ⟨added, taken, speeds⟩ := books
  dsimp only at h
  generalize hcollector : crew.collector = collector at h
  have hstep {rest : Collecting Turn} (hrest : collector = .collecting rest) :
      crew.step job .collector = crew.stepCollector job rest := by
    simp only [Crew.step, hcollector, hrest]
  cases h with
  | beginning =>
    rw [hstep rfl]
    simp only [Books.record, hcollector, begin, Crew.stepCollector]
    exact .receiving crew.now rfl
  | receiving started htold =>
    rw [hstep rfl]
    simp only [Books.record, hcollector, turn]
    exact .receive htold
  | reporting hreports htold =>
    rw [hstep rfl]
    cases hreports with
    | take started elapsed =>
      simp only [Books.record, hcollector]
      exact .speaking crew.tally started elapsed htold
    | @ask e next haside hnext =>
      cases e with
      | receive | takeTally | reportSpeed rate => exact haside.elim
      | _ =>
        simp only [Books.record, hcollector]
        exact .reporting (hnext _) htold
  | @speaking taken speeds nonces started elapsed htold =>
    rw [hstep rfl]
    simp only [Books.record, hcollector]
    have hsum : taken.sum + nonces = (taken ++ [nonces]).sum := by simp
    rw [hsum]
    exact .again started (htold.concat nonces elapsed)
  | again started htold =>
    rw [hstep rfl]
    simp only [Books.record, hcollector]
    exact .receiving started htold
  | closing htold hended =>
    rw [hstep rfl]
    simp only [Books.record, hcollector]
    exact .leaving crew.tally htold hended rfl
  | leaving remainder htold hended htally =>
    rw [hstep rfl]
    simp only [Books.record, hcollector]
    exact .ended remainder htold hended htally
  | ended remainder htold hended htally =>
    have hrest : crew.step job .collector = crew := by
      simp only [Crew.step, hcollector]
    rw [hrest, hcollector]
    simp only [Books.record, hcollector]
    exact .ended remainder htold hended htally

/-- What is taken leaves the tally. -/
theorem tally_step_collector :
    (crew.step job .collector).tally + (books.record job crew .collector).taken.sum =
      crew.tally + books.taken.sum := by
  cases hcollector : crew.collector with
  | ended total => simp only [Crew.step, Books.record, hcollector]
  | collecting rest =>
    simp only [Crew.step, Books.record, hcollector]
    cases rest with
    | done turn => cases turn <;> rfl
    | ask e next =>
      cases e with
      | receive => simp only [Crew.stepCollector]; split <;> rfl
      | takeTally => simp [Crew.stepCollector, Nat.add_comm]
      | _ => rfl

theorem added_record_collector : (books.record job crew .collector).added = books.added := by
  simp only [Books.record]
  split <;> rfl

end Collectors

end Hashwork.Mining
