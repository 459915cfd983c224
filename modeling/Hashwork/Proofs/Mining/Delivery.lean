import Hashwork.Proofs.Mining.Workers

/-!
# Delivery

Shares leave the channel in the order in which they were sent, and each is reported before the collector
looks for another.  When the collector ends, nothing is left in the channel and nobody can send any more.
-/

namespace Hashwork.Mining

/-- Nobody can send any more, and nothing is left. -/
structure Closed (job : Job) (crew : Crew) : Prop where
  allEnded : job.allEnded crew = true
  channel_eq : crew.channel = []

namespace Collector

/-- What the collector asks between two looks into the channel. -/
def Event.isQuiet (deadline : Option Instant) : Event → Prop
  | .receive | .reportShare _ => False
  | .raiseFlag => deadline.isSome = true
  | _ => True

/-- What is left of a turn after the channel has been looked into. -/
inductive Quiet (deadline : Option Instant) : Collecting Turn → Prop
  | again (started : Instant) (total : Nat) : Quiet deadline (.done (.again started total))
  | ask {e : Event} {next : e.Answer → Collecting Turn} (hquiet : e.isQuiet deadline)
    (hnext : ∀ answer, Quiet deadline (next answer)) : Quiet deadline (.ask e next)

theorem quiet_report (deadline : Option Instant) (started : Instant) (total : Nat) :
    Quiet deadline (report started total) :=
  .ask trivial fun _ ↦ .ask trivial fun _ ↦ .ask trivial fun _ ↦ .ask trivial fun _ ↦ .again _ _

theorem quiet_watchDeadline {deadline : Option Instant} {rest : Collecting Turn}
    (h : Quiet deadline rest) : Quiet deadline (watchDeadline deadline rest) := by
  cases deadline with
  | none => exact h
  | some deadline =>
    refine .ask trivial fun now ↦ ?_
    split
    · refine .ask trivial fun raised ↦ ?_
      split
      · exact h
      · exact .ask trivial fun _ ↦ .ask rfl fun _ ↦ h
    · exact h

/-- Where the collector is, with the shares that it has taken out and not yet reported. -/
inductive Stage (job : Job) (crew : Crew) : CollectorState → List Share → Prop
  | beginning : Stage job crew (.collecting (begin job.deadline)) []
  | receiving (started : Instant) (total : Nat) :
    Stage job crew (.collecting (turn job.deadline started total)) []
  | reporting (share : Share) {rest : Collecting Turn} (hquiet : Quiet job.deadline rest) :
    Stage job crew (.collecting (.ask (.reportShare share) fun _ ↦ rest)) [share]
  | quiet {rest : Collecting Turn} (hquiet : Quiet job.deadline rest) :
    Stage job crew (.collecting rest) []
  | closing (total : Nat) (hclosed : Closed job crew) :
    Stage job crew (.collecting (.ask .takeTally fun nonces ↦ .done (.last (total + nonces)))) []
  | leaving (total : Nat) (hclosed : Closed job crew) :
    Stage job crew (.collecting (.done (.last total))) []
  | ended (total : Nat) (hclosed : Closed job crew) : Stage job crew (.ended total) []

end Collector

/-- The shares that were sent have been reported, are about to be, or are in the channel, in this order. -/
structure Delivered (job : Job) (s : Shift) (held : List Share) : Prop where
  stage : Collector.Stage job s.crew s.crew.collector held
  shares_eq : s.crew.reported.reverse ++ held ++ s.crew.channel = s.ledger.sent.map (·.2)

section Steps

open Collector

variable {job : Job} {s s' : Shift} {held : List Share}

theorem Delivered.open (job : Job) (flag : Bool) (now : Instant) : Delivered job (job.open flag now) [] :=
  ⟨.beginning, rfl⟩

theorem Collector.Stage.mono {crew crew' : Crew} {collector : CollectorState}
    (h : Stage job crew collector held) (hclosed : Closed job crew → Closed job crew') :
    Stage job crew' collector held := by
  cases h with
  | beginning => exact .beginning
  | receiving started total => exact .receiving started total
  | reporting share hquiet => exact .reporting share hquiet
  | quiet hquiet => exact .quiet hquiet
  | closing total h => exact .closing total (hclosed h)
  | leaving total h => exact .leaving total (hclosed h)
  | ended total h => exact .ended total (hclosed h)

theorem Delivered.worker {i : Nat} (h : Delivered job s held) (hmove : Move job s (.worker i) s') :
    Delivered job s' held := by
  cases hmove with
  | ask answer tally log hi hworker hgiven =>
    refine ⟨h.stage.mono fun hclosed ↦ absurd hworker (ne_working_of_allEnded hclosed.allEnded hi), ?_⟩
    rw [List.map_append, List.map_map, ← h.shares_eq, ← List.append_assoc]
    congr 1
    exact (List.map_id _).symm
  | turn hi hworker =>
    have hopen (hclosed : Closed job s.crew) := ne_working_of_allEnded hclosed.allEnded hi hworker
    exact ⟨h.stage.mono fun hclosed ↦ (hopen hclosed).elim, h.shares_eq⟩
  | rest hrest => exact h
  | other hother => exact absurd rfl (hother i)

theorem step_collecting {rest : Collecting Turn} (hcollector : s.crew.collector = .collecting rest) :
    s.step job .collector = ⟨s.crew.stepCollector job rest, s.ledger⟩ := by
  simp only [Shift.step, Crew.step, Ledger.record, hcollector]

/-- A look into the channel. -/
theorem Delivered.receive {started : Instant} {total : Nat} (h : Delivered job s [])
    (hcollector : s.crew.collector = .collecting (turn job.deadline started total)) :
    ∃ held, Delivered job (s.step job .collector) held := by
  have hshares := h.shares_eq
  have hquiet : Quiet job.deadline (watchDeadline job.deadline (report started total)) :=
    quiet_watchDeadline (quiet_report job.deadline started total)
  rw [step_collecting hcollector]
  cases hchannel : s.crew.channel with
  | cons share rest =>
    simp only [turn, Crew.stepCollector, hchannel]
    refine ⟨[share], .reporting share hquiet, ?_⟩
    rw [← hshares, hchannel, List.append_nil, List.append_assoc]
    rfl
  | nil =>
    simp only [turn, Crew.stepCollector, hchannel]
    by_cases hended : job.allEnded s.crew = true
    · rw [if_pos hended]
      exact ⟨[], .closing total ⟨hended, hchannel⟩, hshares⟩
    · rw [if_neg hended]
      exact ⟨[], .quiet hquiet, hshares⟩

theorem Delivered.collector (h : Delivered job s held) :
    ∃ held', Delivered job (s.step job .collector) held' := by
  have hstage := h.stage
  have hshares := h.shares_eq
  generalize hcollector : s.crew.collector = collector at hstage
  cases hstage with
  | beginning =>
    rw [step_collecting hcollector]
    exact ⟨[], .receiving s.crew.now 0, hshares⟩
  | receiving started total => exact h.receive hcollector
  | reporting share hquiet =>
    rw [step_collecting hcollector]
    refine ⟨[], .quiet hquiet, ?_⟩
    rw [← hshares, List.append_nil]
    exact congrArg (· ++ s.crew.channel) List.reverse_cons
  | quiet hquiet =>
    rw [step_collecting hcollector]
    cases hquiet with
    | again started total => exact ⟨[], .receiving started total, hshares⟩
    | @ask e next hquiet hnext =>
      cases e with
      | receive | reportShare share => exact hquiet.elim
      | _ => exact ⟨[], .quiet (hnext _), hshares⟩
  | closing total hclosed =>
    rw [step_collecting hcollector]
    exact ⟨[], .leaving _ ⟨hclosed.allEnded, hclosed.channel_eq⟩, hshares⟩
  | leaving total hclosed =>
    rw [step_collecting hcollector]
    exact ⟨[], .ended total ⟨hclosed.allEnded, hclosed.channel_eq⟩, hshares⟩
  | ended total hclosed =>
    have hstep : s.step job .collector = s := by
      simp only [Shift.step, Crew.step, Ledger.record, hcollector]
    exact hstep.symm ▸ ⟨[], h⟩

theorem Delivered.step (h : Delivered job s held) (action : Crew.Action) :
    ∃ held', Delivered job (s.step job action) held' := by
  cases action with
  | worker i => exact ⟨held, h.worker (move_step job s _)⟩
  | collector => exact h.collector
  | tick d =>
    obtain ⟨now, htick⟩ := exists_step_tick job s d
    rw [htick]
    exact ⟨held, h.stage.mono fun hclosed ↦ ⟨hclosed.allEnded, hclosed.channel_eq⟩, h.shares_eq⟩
  | cancel => exact ⟨held, h.stage.mono fun hclosed ↦ ⟨hclosed.allEnded, hclosed.channel_eq⟩, h.shares_eq⟩

theorem exists_delivered (job : Job) (flag : Bool) (now : Instant) (actions : List Crew.Action) :
    ∃ held, Delivered job ((job.open flag now).run job actions) held := by
  induction actions using List.reverseRecOn with
  | nil => exact ⟨[], .open job flag now⟩
  | append_singleton actions action ih =>
    obtain ⟨held, h⟩ := ih
    rw [Shift.run_concat]
    exact h.step action

/-- What has been reported was sent, in this order. -/
theorem Delivered.reported_starts (h : Delivered job s held) :
    s.crew.reported.reverse <+: s.ledger.sent.map (·.2) :=
  ⟨held ++ s.crew.channel, (List.append_assoc _ _ _).symm.trans h.shares_eq⟩

/-- When the collector has ended, so have all workers, and all that was sent has been reported. -/
theorem Delivered.of_total? (h : Delivered job s held) (hended : s.crew.total?.isSome = true) :
    Closed job s.crew ∧ s.crew.reported.reverse = s.ledger.sent.map (·.2) := by
  obtain ⟨hstage, hshares⟩ := h
  unfold Crew.total? at hended
  generalize s.crew.collector = collector at hstage hended
  cases collector with
  | collecting rest => cases hended
  | ended total =>
    cases hstage with
    | ended _ hclosed =>
      rw [hclosed.channel_eq, List.append_nil, List.append_nil] at hshares
      exact ⟨hclosed, hshares⟩

/-- Without a deadline the collector does not raise the flag. -/
theorem Collector.Stage.deadline_isSome {crew : Crew} {next : Unit → Collecting Turn}
    (h : Stage job crew (.collecting (.ask .raiseFlag next)) held) : job.deadline.isSome = true := by
  cases h with
  | quiet hquiet =>
    cases hquiet with
    | ask hraise => exact hraise

theorem Delivered.flag_eq {action : Crew.Action} (h : Delivered job s held)
    (hdeadline : job.deadline = none) (hcancel : action ≠ .cancel) :
    (s.step job action).crew.flag = s.crew.flag := by
  cases action with
  | worker i =>
    have hmove := move_step job s (.worker i)
    generalize s.step job (.worker i) = s' at hmove ⊢
    cases hmove with
    | ask | turn | rest => rfl
    | other hother => exact absurd rfl (hother i)
  | collector =>
    rcases (step_collector job s.crew).2.2 with heq | ⟨-, next, hraise⟩
    · exact heq
    · have hsome := (hraise ▸ h.stage).deadline_isSome
      rw [hdeadline] at hsome
      cases hsome
  | tick d =>
    obtain ⟨now, htick⟩ := exists_step_tick job s d
    rw [htick]
  | cancel => exact absurd rfl hcancel

/-- Nobody raises the flag if there is no deadline and nobody from outside does. -/
theorem flag_run (job : Job) (flag : Bool) (now : Instant) (hdeadline : job.deadline = none)
    (actions : List Crew.Action) (hcancel : .cancel ∉ actions) :
    ((job.open flag now).run job actions).crew.flag = flag := by
  induction actions using List.reverseRecOn with
  | nil => rfl
  | append_singleton actions action ih =>
    rw [List.mem_append, not_or, List.mem_singleton] at hcancel
    obtain ⟨held, h⟩ := exists_delivered job flag now actions
    rw [Shift.run_concat, h.flag_eq hdeadline (Ne.symm hcancel.2), ih hcancel.1]

end Steps

end Hashwork.Mining
