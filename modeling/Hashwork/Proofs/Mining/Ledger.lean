import Hashwork.Mining.Crew
import Hashwork.Proofs.Mining.Portions
import Hashwork.Proofs.Mining.Turn
import Mathlib.Data.List.Perm.Basic

/-!
# The ledger of a crew

The ledger tells what the workers have done: which shares each has sent, and which nonces its turns have
passed. It is kept beside the crew and has no influence on it.
-/

namespace Hashwork.Mining

namespace Worker

/-- What is sent with an event. -/
def Event.shares : Event → List Share
  | .send share => [share]
  | _ => []

/-- What a worker is answered while the flag is this. -/
def Given (flag : Bool) : (e : Event) → e.Answer → Prop
  | .readFlag, raised => raised = flag
  | .send _, taken => taken = true
  | .note _, _ | .tally _, _ => True

end Worker

structure Ledger where
  /-- The shares sent so far, each with its worker. -/
  sent : List (Nat × Share)
  /-- The nonces that turns have passed, each stretch with its worker. -/
  passed : List (Nat × Portion)
  /-- The nonce that each worker's turn began at. -/
  reached : Nat → Nat

namespace Ledger

def send (ledger : Ledger) (i : Nat) (share : Share) : Ledger :=
  { ledger with sent := ledger.sent ++ [(i, share)] }

/-- A turn of worker `i` has ended, and `nonce` is where the next would begin. -/
def reach (ledger : Ledger) (i nonce : Nat) : Ledger :=
  { ledger with
    passed :=
      if ledger.reached i < nonce then ledger.passed ++ [(i, ⟨ledger.reached i, nonce⟩)]
      else ledger.passed
    reached := fun j ↦ if j = i then nonce else ledger.reached j }

/-- Enters what a crew is about to do. -/
def record (job : Job) (crew : Crew) (ledger : Ledger) : Crew.Action → Ledger
  | .worker i =>
    if i < job.miner.threads then
      match crew.workers i with
      | .working (.ask (.send share) _) => ledger.send i share
      | .working (.done turn) => ledger.reach i turn.item.nextNonce
      | _ => ledger
    else ledger
  | _ => ledger

end Ledger

/-- A crew with its ledger. -/
structure Shift where
  crew : Crew
  ledger : Ledger

def Job.open (job : Job) (flag : Bool) (now : Instant) : Shift where
  crew := job.start flag now
  ledger := ⟨[], [], fun i ↦ (portion job.miner.threads i).first⟩

namespace Shift

def step (job : Job) (s : Shift) (action : Crew.Action) : Shift :=
  ⟨s.crew.step job action, s.ledger.record job s.crew action⟩

def run (job : Job) (s : Shift) (actions : List Crew.Action) : Shift :=
  actions.foldl (step job) s

theorem run_concat (job : Job) (s : Shift) (actions : List Crew.Action) (action : Crew.Action) :
    s.run job (actions ++ [action]) = (s.run job actions).step job action :=
  List.foldl_concat ..

/-- The ledger only watches. -/
theorem run_crew (job : Job) (s : Shift) (actions : List Crew.Action) :
    (s.run job actions).crew = s.crew.run job actions := by
  induction actions generalizing s with
  | nil => rfl
  | cons action actions ih => exact ih (s.step job action)

end Shift

section Moves

/-- What becomes of worker `i` after a turn. -/
def Job.after (job : Job) (i : Nat) : Worker.Turn → WorkerState
  | .again item => job.turnOf i item
  | .last item => .ended item

/-- All that a step can do, as far as the workers are concerned. -/
inductive Move (job : Job) (s : Shift) : Crew.Action → Shift → Prop
  | ask {i : Nat} {e : Worker.Event} {next : e.Answer → Worker.Working Worker.Turn} (answer : e.Answer)
    (tally : Nat) (log : List Log.Line) (hi : i < job.miner.threads)
    (hworker : s.crew.workers i = .working (.ask e next)) (hgiven : Worker.Given s.crew.flag e answer) :
    Move job s (.worker i)
      ⟨{ s.crew.setWorker i (.working (next answer)) with
          channel := s.crew.channel ++ e.shares, tally, log },
        { s.ledger with sent := s.ledger.sent ++ e.shares.map fun share ↦ (i, share) }⟩
  | turn {i : Nat} {turn : Worker.Turn} (hi : i < job.miner.threads)
    (hworker : s.crew.workers i = .working (.done turn)) :
    Move job s (.worker i)
      ⟨s.crew.setWorker i (job.after i turn), s.ledger.reach i turn.item.nextNonce⟩
  | rest {i : Nat} (hrest : i < job.miner.threads → ∃ item, s.crew.workers i = .ended item) :
    Move job s (.worker i) s
  | other {action : Crew.Action} {crew : Crew} (hother : ∀ i, action ≠ .worker i)
    (hworkers : crew.workers = s.crew.workers) (hflag : s.crew.flag = true → crew.flag = true) :
    Move job s action ⟨crew, s.ledger⟩

variable {job : Job} {s : Shift} {i : Nat}

theorem move_ask {e : Worker.Event} {next : e.Answer → Worker.Working Worker.Turn}
    (hi : i < job.miner.threads) (hworker : s.crew.workers i = .working (.ask e next)) :
    Move job s (.worker i) (s.step job (.worker i)) := by
  have hmove := fun answer tally log hgiven ↦ Move.ask answer tally log hi hworker hgiven
  simp only [Shift.step, Crew.step, Ledger.record, hworker, if_pos hi]
  cases e with
  | send share => exact hmove true s.crew.tally s.crew.log rfl
  | readFlag =>
    simp only [Worker.Event.shares, List.map_nil, List.append_nil] at hmove
    exact hmove s.crew.flag s.crew.tally s.crew.log rfl
  | note line =>
    simp only [Worker.Event.shares, List.map_nil, List.append_nil] at hmove
    exact hmove () s.crew.tally (line :: s.crew.log) trivial
  | tally nonces =>
    simp only [Worker.Event.shares, List.map_nil, List.append_nil] at hmove
    exact hmove () (s.crew.tally + nonces) s.crew.log trivial

theorem move_done {turn : Worker.Turn} (hi : i < job.miner.threads)
    (hworker : s.crew.workers i = .working (.done turn)) :
    Move job s (.worker i) (s.step job (.worker i)) := by
  have hmove := Move.turn hi hworker
  simp only [Shift.step, Crew.step, Ledger.record, hworker, if_pos hi]
  cases turn with
  | again item => exact hmove
  | last item => exact hmove

theorem move_rest (hrest : i < job.miner.threads → ∃ item, s.crew.workers i = .ended item) :
    Move job s (.worker i) (s.step job (.worker i)) := by
  have hstep : s.step job (.worker i) = s := by
    by_cases hi : i < job.miner.threads
    · obtain ⟨item, hworker⟩ := hrest hi
      simp only [Shift.step, Crew.step, Ledger.record, hworker, if_pos hi]
    · cases hworker : s.crew.workers i with
      | ended item => simp only [Shift.step, Crew.step, Ledger.record, hworker, if_neg hi]
      | working rest => simp only [Shift.step, Crew.step, Ledger.record, hworker, if_neg hi]
  rw [hstep]
  exact .rest hrest

theorem allEnded_iff {crew : Crew} :
    job.allEnded crew = true ↔ ∀ i < job.miner.threads, ∃ item, crew.workers i = .ended item := by
  unfold Job.allEnded
  rw [List.all_eq_true]
  constructor
  · intro h i hi
    have hended := h i (List.mem_range.mpr hi)
    cases hworker : crew.workers i with
    | ended item => exact ⟨item, rfl⟩
    | working rest =>
      rw [hworker] at hended
      cases hended
  · intro h i hmem
    obtain ⟨item, hended⟩ := h i (List.mem_range.mp hmem)
    rw [hended]
    rfl

theorem ne_working_of_allEnded {crew : Crew} {rest : Worker.Working Worker.Turn}
    (hended : job.allEnded crew = true) (hi : i < job.miner.threads) :
    crew.workers i ≠ .working rest := by
  intro hworker
  obtain ⟨item, hrest⟩ := allEnded_iff.mp hended i hi
  cases hrest.symm.trans hworker

/-- The collector leaves the workers alone, takes nothing but the first share out of the channel, and raises
the flag only when it says so. -/
theorem step_collector (job : Job) (crew : Crew) :
    (crew.step job .collector).workers = crew.workers ∧
      (crew.step job .collector).channel <:+ crew.channel ∧
        ((crew.step job .collector).flag = crew.flag ∨ (crew.step job .collector).flag = true ∧
          ∃ next, crew.collector = .collecting (.ask .raiseFlag next)) := by
  simp only [Crew.step]
  cases crew.collector with
  | ended total => exact ⟨rfl, List.suffix_rfl, .inl rfl⟩
  | collecting rest =>
    cases rest with
    | done turn => cases turn <;> exact ⟨rfl, List.suffix_rfl, .inl rfl⟩
    | ask e next =>
      cases e with
      | receive =>
        cases hchannel : crew.channel with
        | nil =>
          simp only [Crew.stepCollector, hchannel]
          exact ⟨rfl, ⟨[], hchannel⟩, .inl rfl⟩
        | cons share rest =>
          simp only [Crew.stepCollector, hchannel]
          exact ⟨rfl, List.suffix_cons .., .inl rfl⟩
      | raiseFlag => exact ⟨rfl, List.suffix_rfl, .inr ⟨rfl, next, rfl⟩⟩
      | _ => exact ⟨rfl, List.suffix_rfl, .inl rfl⟩

-- The new time is a variable, so that no sum of large numerals is ever compared with the old one.
theorem exists_step_tick (job : Job) (s : Shift) (d : Duration) :
    ∃ now, s.step job (.tick d) = ⟨{ s.crew with now }, s.ledger⟩ :=
  ⟨_, rfl⟩

theorem move_step (job : Job) (s : Shift) (action : Crew.Action) :
    Move job s action (s.step job action) := by
  cases action with
  | worker i =>
    by_cases hrest : i < job.miner.threads → ∃ item, s.crew.workers i = .ended item
    · exact move_rest hrest
    · obtain ⟨hi, hnot⟩ := Classical.not_imp.mp hrest
      cases hworker : s.crew.workers i with
      | ended item => exact absurd ⟨item, hworker⟩ hnot
      | working rest =>
        cases rest with
        | done turn => exact move_done hi hworker
        | ask e next => exact move_ask hi hworker
  | collector =>
    obtain ⟨hworkers, -, hflag⟩ := step_collector job s.crew
    refine .other nofun hworkers fun hraised ↦ ?_
    exact hflag.elim (fun heq ↦ heq.trans hraised) And.left
  | tick d =>
    obtain ⟨now, htick⟩ := exists_step_tick job s d
    rw [htick]
    exact .other nofun rfl id
  | cancel => exact .other nofun rfl fun _ ↦ rfl

end Moves

section Entries

variable {α : Type} {i j workers : Nat}

/-- What is entered for worker `i`. -/
def ofWorker (i : Nat) (entries : List (Nat × α)) : List α :=
  (entries.filter (·.1 = i)).map (·.2)

theorem mem_ofWorker {a : α} {entries : List (Nat × α)} :
    a ∈ ofWorker i entries ↔ (i, a) ∈ entries := by
  simp [ofWorker]

@[simp]
theorem ofWorker_append (i : Nat) (entries entries' : List (Nat × α)) :
    ofWorker i (entries ++ entries') = ofWorker i entries ++ ofWorker i entries' := by
  simp [ofWorker]

@[simp]
theorem ofWorker_map_self (i : Nat) (l : List α) : ofWorker i (l.map fun a ↦ (i, a)) = l := by
  simp [ofWorker, List.filter_map, Function.comp_def]

theorem ofWorker_map_of_ne (h : j ≠ i) (l : List α) : ofWorker j (l.map fun a ↦ (i, a)) = [] := by
  simp [ofWorker, List.filter_map, Function.comp_def, h.symm]

theorem filter_lt_succ_perm (entries : List (Nat × α)) (m : Nat) :
    (entries.filter (·.1 < m) ++ entries.filter (·.1 = m)).Perm (entries.filter (·.1 < m + 1)) := by
  have hsplit := List.filter_append_perm (fun entry : Nat × α ↦ decide (entry.1 < m))
    (entries.filter (·.1 < m + 1))
  have hlt : (entries.filter (·.1 < m + 1)).filter (·.1 < m) = entries.filter (·.1 < m) := by
    rw [List.filter_filter]
    apply List.filter_congr
    intro entry _
    simpa using Nat.lt_succ_of_lt
  have heq : (entries.filter (·.1 < m + 1)).filter (fun entry ↦ !decide (entry.1 < m)) =
      entries.filter (·.1 = m) := by
    rw [List.filter_filter]
    apply List.filter_congr
    intro entry _
    rw [← decide_not, ← Bool.decide_and, decide_eq_decide]
    omega
  rwa [hlt, heq] at hsplit

/-- The entries of all workers together. -/
theorem perm_flatMap_ofWorker {entries : List (Nat × α)} (h : ∀ entry ∈ entries, entry.1 < workers) :
    ((List.range workers).flatMap fun i ↦ ofWorker i entries).Perm (entries.map (·.2)) := by
  have hbelow (m : Nat) : ((List.range m).flatMap fun i ↦ ofWorker i entries).Perm
      ((entries.filter (·.1 < m)).map (·.2)) := by
    induction m with
    | zero => simp
    | succ m ih =>
      rw [List.range_succ, List.flatMap_append, List.flatMap_singleton]
      apply (ih.append_right _).trans
      rw [ofWorker, ← List.map_append]
      exact (filter_lt_succ_perm entries m).map _
  have hall : entries.filter (·.1 < workers) = entries :=
    List.filter_eq_self.mpr fun entry hmem ↦ decide_eq_true (h entry hmem)
  have hperm := hbelow workers
  rwa [hall] at hperm

end Entries

section Frames

variable {i j : Nat}

@[simp]
theorem setWorker_workers_self (crew : Crew) (i : Nat) (worker : WorkerState) :
    (crew.setWorker i worker).workers i = worker :=
  if_pos rfl

theorem setWorker_workers_of_ne (crew : Crew) (worker : WorkerState) (h : j ≠ i) :
    (crew.setWorker i worker).workers j = crew.workers j :=
  if_neg h

@[simp]
theorem Ledger.reach_reached_self (ledger : Ledger) (i nonce : Nat) :
    (ledger.reach i nonce).reached i = nonce :=
  if_pos rfl

theorem Ledger.reach_reached_of_ne (ledger : Ledger) (nonce : Nat) (h : j ≠ i) :
    (ledger.reach i nonce).reached j = ledger.reached j :=
  if_neg h

theorem ofWorker_reach_self (ledger : Ledger) (i nonce : Nat) :
    ofWorker i (ledger.reach i nonce).passed =
      if ledger.reached i < nonce then ofWorker i ledger.passed ++ [⟨ledger.reached i, nonce⟩]
      else ofWorker i ledger.passed := by
  have hone : ofWorker i [(i, (⟨ledger.reached i, nonce⟩ : Portion))] = [⟨ledger.reached i, nonce⟩] :=
    ofWorker_map_self i [_]
  simp only [Ledger.reach, apply_ite (ofWorker i), ofWorker_append, hone]

theorem ofWorker_reach_of_ne (ledger : Ledger) (nonce : Nat) (h : j ≠ i) :
    ofWorker j (ledger.reach i nonce).passed = ofWorker j ledger.passed := by
  have hnone : ofWorker j [(i, (⟨ledger.reached i, nonce⟩ : Portion))] = [] := ofWorker_map_of_ne h [_]
  simp only [Ledger.reach, apply_ite (ofWorker j), ofWorker_append, hnone, List.append_nil, ite_self]

end Frames

end Hashwork.Mining
