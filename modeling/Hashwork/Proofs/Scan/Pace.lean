import Hashwork.Proofs.Scan.Watched
import Hashwork.Proofs.Work.Accepted

/-!
# The pace of a scan

Between two looks at the flag a scan hashes at most one batch, and a share that is checked once more is of that
batch.  After a look that has found the flag raised it hashes nothing.  So wherever the flag is raised for good,
in the middle of a batch or between two, at most one batch is hashed from there on.  The runs of the kernels
keep this pace.
-/

namespace Hashwork

namespace Scan

abbrev WatchedTranscript := List (Routine.WatchedExchange Mark Event.Answer)

open Routine (marksIn askedIn)

/-- The nonces in the lanes of a batch. -/
def lanesFrom (lanes : Nat) (base : Word) : List Word :=
  (List.range lanes).map fun lane ↦ base + lane.toUInt32

namespace Mark

def hashed (lanes : Nat) : Mark → List Word
  | batch base => lanesFrom lanes base
  | recheck nonce => [nonce]
  | call | decided .. => []

def bases : Mark → List Word
  | batch base => [base]
  | call | decided .. | recheck _ => []

def nonces : Mark → List Word
  | decided first count => noncesBetween first.toNat (first.toNat + count)
  | call | batch _ | recheck _ => []

end Mark

/-- The nonces that are hashed, each as often as it is. -/
def hashedIn (lanes : Nat) (t : WatchedTranscript) : List Word :=
  (marksIn t).flatMap (Mark.hashed lanes)

/-- Where the batches begin. -/
def batchesIn (t : WatchedTranscript) : List Word :=
  (marksIn t).flatMap Mark.bases

def decidedIn (t : WatchedTranscript) : List Word :=
  (marksIn t).flatMap Mark.nonces

/-- What the looks at the flag find. -/
def looksIn (t : WatchedTranscript) : List Bool :=
  (askedIn t).filterMap fun
    | ⟨.readFlag, raised⟩ => some raised
    | _ => none

/-- Nothing is hashed once a look has found the flag raised. -/
def Heeded (t : WatchedTranscript) : Prop :=
  ∀ before after : WatchedTranscript, t = before ++ ⟨.inl .readFlag, true⟩ :: after → marksIn after = []

/-- The flag is not lowered once it has been seen raised. -/
def Lasting (t : WatchedTranscript) : Prop :=
  (looksIn t).Pairwise (· ≤ ·)

/-- A share is offered and not taken. -/
def Refused (t : WatchedTranscript) : Prop :=
  ∃ share : Share, ⟨.inl (.offer share), false⟩ ∈ t

section Append

variable (t t' : WatchedTranscript)

@[simp]
theorem decidedIn_append : decidedIn (t ++ t') = decidedIn t ++ decidedIn t' := by
  simp [decidedIn]

@[simp]
theorem looksIn_append : looksIn (t ++ t') = looksIn t ++ looksIn t' := by
  simp [looksIn]

end Append

theorem Refused.append_left {t : WatchedTranscript} (h : Refused t) (earlier : WatchedTranscript) :
    Refused (earlier ++ t) := by
  obtain ⟨share, hmem⟩ := h
  exact ⟨share, List.mem_append_right _ hmem⟩

theorem Lasting.of_append {t t' : WatchedTranscript} (h : Lasting (t ++ t')) : Lasting t ∧ Lasting t' := by
  rw [Lasting, looksIn_append] at h
  exact ⟨(List.pairwise_append.mp h).1, (List.pairwise_append.mp h).2.1⟩

/-- A flag that is raised for good at some point is not lowered. -/
theorem lasting_append {t t' : WatchedTranscript} (hlowered : ∀ raised ∈ looksIn t, raised = false)
    (hraised : ∀ raised ∈ looksIn t', raised = true) : Lasting (t ++ t') := by
  have hsame {looks : List Bool} {value : Bool} (h : ∀ raised ∈ looks, raised = value) :
      looks.Pairwise (· ≤ ·) :=
    List.pairwise_of_forall_mem_list fun a ha b hb ↦ by rw [h a ha, h b hb]
  rw [Lasting, looksIn_append, List.pairwise_append]
  refine ⟨hsame hlowered, hsame hraised, ?_⟩
  intro earlier hearlier later _
  rw [hlowered earlier hearlier]
  exact Bool.false_le later

theorem mem_lanesFrom {lanes lane : Nat} (base : Word) (h : lane < lanes) :
    base + lane.toUInt32 ∈ lanesFrom lanes base :=
  List.mem_map_of_mem (List.mem_range.mpr h)

theorem mem_lanesFrom_of_noncesBetween {lanes count : Nat} {base nonce : Word} (hle : count ≤ lanes)
    (h : nonce ∈ noncesBetween base.toNat (base.toNat + count)) : nonce ∈ lanesFrom lanes base := by
  rw [noncesBetween_add] at h
  obtain ⟨lane, hlane, rfl⟩ := List.mem_map.mp h
  exact mem_lanesFrom base (Nat.lt_of_lt_of_le (List.mem_range.mp hlane) hle)

/-- Where there are no marks, nothing is hashed. -/
theorem hashedIn_of_marksIn {lanes : Nat} {t : WatchedTranscript} (base : Word) (h : marksIn t = []) :
    (∀ nonce ∈ hashedIn lanes t, nonce ∈ lanesFrom lanes base) ∧ batchesIn t = [] := by
  rw [hashedIn, batchesIn, h]
  exact ⟨fun _ hmem ↦ absurd hmem List.not_mem_nil, rfl⟩

/-- What has been hashed since the last look at the flag: nothing, or the batch from `base` on.  Once the flag
has been seen raised, nothing is. -/
inductive Pace where
  | rested
  | hashed (base : Word)
  | halted

inductive Pace.Step (lanes : Nat) : Pace → Routine.WatchedExchange Mark Event.Answer → Pace → Prop
  | lowered {pace : Pace} (h : pace ≠ .halted) : Step lanes pace ⟨.inl .readFlag, false⟩ .rested
  | raised (pace : Pace) : Step lanes pace ⟨.inl .readFlag, true⟩ .halted
  | ignored (raised : Bool) : Step lanes .halted ⟨.inl .readFlag, raised⟩ .halted
  | noted (pace : Pace) (line : Log.Line) : Step lanes pace ⟨.inl (.note line), ()⟩ pace
  | offered (pace : Pace) (share : Share) (taken : Bool) :
    Step lanes pace ⟨.inl (.offer share), taken⟩ pace
  | call : Step lanes .rested ⟨.inr .call, ()⟩ .rested
  | batch (base : Word) : Step lanes .rested ⟨.inr (.batch base), ()⟩ (.hashed base)
  | decided (base : Word) {count : Nat} (h : count ≤ lanes) :
    Step lanes (.hashed base) ⟨.inr (.decided base count), ()⟩ (.hashed base)
  | recheck {base nonce : Word} (h : nonce ∈ lanesFrom lanes base) :
    Step lanes (.hashed base) ⟨.inr (.recheck nonce), ()⟩ (.hashed base)

inductive Paced (lanes : Nat) : Pace → WatchedTranscript → Pace → Prop
  | nil (pace : Pace) : Paced lanes pace [] pace
  | cons {pace next last : Pace} {exchange : Routine.WatchedExchange Mark Event.Answer}
    {t : WatchedTranscript} (h : Pace.Step lanes pace exchange next) (hrest : Paced lanes next t last) :
    Paced lanes pace (exchange :: t) last

namespace Paced

variable {lanes : Nat} {pace next last : Pace} {t t' : WatchedTranscript} {base : Word}

theorem append (h : Paced lanes pace t next) (h' : Paced lanes next t' last) :
    Paced lanes pace (t ++ t') last := by
  induction h with
  | nil pace => exact h'
  | cons hstep _ ih => exact .cons hstep (ih h')

theorem exists_of_append (h : Paced lanes pace (t ++ t') last) :
    ∃ next, Paced lanes pace t next ∧ Paced lanes next t' last := by
  induction t generalizing pace with
  | nil => exact ⟨pace, .nil pace, h⟩
  | cons exchange t ih =>
    cases h with
    | cons hstep hrest =>
      obtain ⟨next, hbefore, hafter⟩ := ih hrest
      exact ⟨next, .cons hstep hbefore, hafter⟩

theorem marksIn_of_halted (h : Paced lanes .halted t last) : marksIn t = [] := by
  induction t with
  | nil => rfl
  | cons exchange t ih =>
    cases h with
    | cons hstep hrest =>
      cases hstep with
      | lowered hnot => exact absurd rfl hnot
      | raised | ignored | noted | offered => exact ih hrest

theorem heeded (h : Paced lanes pace t last) : Heeded t := by
  rintro before after rfl
  obtain ⟨next, -, hlook⟩ := h.exists_of_append
  cases hlook with
  | cons hstep hrest =>
    cases hstep with
    | raised => exact hrest.marksIn_of_halted
    | ignored => exact hrest.marksIn_of_halted

/-- What follows a batch, if all looks to come find the flag raised. -/
theorem hashedIn_of_hashed (h : Paced lanes (.hashed base) t last)
    (hraised : ∀ raised ∈ looksIn t, raised = true) :
    (∀ nonce ∈ hashedIn lanes t, nonce ∈ lanesFrom lanes base) ∧ batchesIn t = [] := by
  induction t with
  | nil => exact hashedIn_of_marksIn base rfl
  | cons exchange t ih =>
    cases h with
    | cons hstep hrest =>
      cases hstep with
      | lowered => exact absurd (hraised false List.mem_cons_self) Bool.false_ne_true
      | raised => exact hashedIn_of_marksIn base hrest.marksIn_of_halted
      | noted | offered | decided => exact ih hrest hraised
      | recheck hnonce =>
        obtain ⟨hhashed, hbatches⟩ := ih hrest hraised
        exact ⟨List.forall_mem_cons.mpr ⟨hnonce, hhashed⟩, hbatches⟩

/-- What follows a moment from which on all looks find the flag raised. -/
theorem hashedIn_of_raised (h : Paced lanes pace t last)
    (hraised : ∀ raised ∈ looksIn t, raised = true) :
    (∃ base, ∀ nonce ∈ hashedIn lanes t, nonce ∈ lanesFrom lanes base) ∧
      (batchesIn t).length ≤ 1 := by
  have hnone {t : WatchedTranscript} {base : Word}
      (h : (∀ nonce ∈ hashedIn lanes t, nonce ∈ lanesFrom lanes base) ∧ batchesIn t = []) :
      (∃ base, ∀ nonce ∈ hashedIn lanes t, nonce ∈ lanesFrom lanes base) ∧
        (batchesIn t).length ≤ 1 :=
    ⟨⟨base, h.1⟩, by rw [h.2]; exact Nat.zero_le 1⟩
  induction t generalizing pace with
  | nil => exact hnone (hashedIn_of_marksIn 0 rfl)
  | cons exchange t ih =>
    cases h with
    | cons hstep hrest =>
      cases hstep with
      | lowered => exact absurd (hraised false List.mem_cons_self) Bool.false_ne_true
      | raised | ignored => exact hnone (hashedIn_of_marksIn 0 hrest.marksIn_of_halted)
      | noted | offered | call | decided => exact ih hrest hraised
      | recheck hnonce =>
        obtain ⟨hhashed, hbatches⟩ := hrest.hashedIn_of_hashed hraised
        exact hnone ⟨List.forall_mem_cons.mpr ⟨hnonce, hhashed⟩, hbatches⟩
      | batch base =>
        obtain ⟨hhashed, hbatches⟩ := hrest.hashedIn_of_hashed hraised
        refine ⟨⟨base, ?_⟩, ?_⟩
        · intro nonce hmem
          rcases List.mem_append.mp hmem with hlane | hlater
          · exact hlane
          · exact hhashed nonce hlater
        · change (base :: batchesIn t).length ≤ 1
          rw [hbatches]
          exact Nat.le_refl 1

/-- What is decided has been hashed, here or in the batch that was hashed last. -/
theorem hashedIn_of_decidedIn (h : Paced lanes pace t last) {nonce : Word} (hmem : nonce ∈ decidedIn t) :
    nonce ∈ hashedIn lanes t ∨ ∃ base, pace = .hashed base ∧ nonce ∈ lanesFrom lanes base := by
  induction h with
  | nil pace => exact absurd hmem List.not_mem_nil
  | cons hstep _ ih =>
    cases hstep with
    | lowered | raised | ignored | call =>
      rcases ih hmem with hlater | ⟨base, hpace, -⟩
      · exact .inl hlater
      · cases hpace
    | noted | offered => exact ih hmem
    | batch base =>
      rcases ih hmem with hlater | ⟨_, hpace, hlane⟩
      · exact .inl (List.mem_append_right _ hlater)
      · cases hpace
        exact .inl (List.mem_append_left _ hlane)
    | decided base hle =>
      rcases List.mem_append.mp hmem with hnow | hlater
      · exact .inr ⟨base, rfl, mem_lanesFrom_of_noncesBetween hle hnow⟩
      · exact ih hlater
    | recheck =>
      rcases ih hmem with hlater | hbase
      · exact .inl (List.mem_cons_of_mem _ hlater)
      · exact .inr hbase

end Paced

end Scan

open Scan

namespace Kernel

/-- A run, watched, that begins at `first`. -/
structure Watched (lanes first : Nat) (max : Word) (t : WatchedTranscript) (found : Bool)
    (last : Word) : Prop where
  first_le : first ≤ last.toNat
  decided_eq : decidedIn t = noncesBetween first (last.toNat + 1)
  paced : (∃ base, Paced lanes .rested t (.hashed base) ∧ last ∈ lanesFrom lanes base) ∨
    Paced lanes .rested t .halted ∧ found = false
  /-- A run that has found nothing is at the end of its range, or else it has seen the flag raised. -/
  finished : found = false → last = max ∨ true ∈ looksIn t

namespace Watched

variable {lanes n : Nat} {base max last : Word} {t : WatchedTranscript} {found : Bool}

/-- A batch of which `n` nonces are decided. -/
def batch (base : Word) (n : Nat) : WatchedTranscript :=
  [⟨.inr (.batch base), ()⟩, ⟨.inr (.decided base n), ()⟩]

theorem paced_batch (base : Word) (hle : n ≤ lanes) :
    Paced lanes .rested (batch base n) (.hashed base) :=
  .cons (.batch base) (.cons (.decided base hle) (.nil _))

theorem decidedIn_batch (base : Word) (n : Nat) :
    decidedIn (batch base n) = noncesBetween base.toNat (base.toNat + n) :=
  List.append_nil _

variable (hvalue : last.toNat + 1 = base.toNat + n) (hpos : 0 < n) (hle : n ≤ lanes)

include hvalue hpos hle

/-- The last batch of a run. -/
theorem ended (hlast : last = base + (n - 1).toUInt32)
    (hfinished : found = false → last = max) :
    Watched lanes base.toNat max (batch base n) found last where
  first_le := by omega
  decided_eq := by rw [decidedIn_batch, hvalue]
  paced := by
    refine .inl ⟨base, paced_batch base hle, ?_⟩
    rw [hlast]
    exact mem_lanesFrom base (by omega)
  finished h := .inl (hfinished h)

/-- A batch after which the flag is seen raised. -/
theorem cancelled : Watched lanes base.toNat max (batch base n ++ [⟨.inl .readFlag, true⟩]) false last where
  first_le := by omega
  decided_eq := by
    rw [decidedIn_append, decidedIn_batch, hvalue]
    exact List.append_nil _
  paced := .inr ⟨(paced_batch base hle).append (.cons (.raised _) (.nil _)), rfl⟩
  finished _ := .inr List.mem_cons_self

/-- A batch after which the run goes on. -/
theorem cons {finish : Word} (hrest : Watched lanes (last.toNat + 1) max t found finish) :
    Watched lanes base.toNat max (batch base n ++ ⟨.inl .readFlag, false⟩ :: t) found finish where
  first_le := by
    have hfirst := hrest.first_le
    omega
  decided_eq := by
    have hfirst := hrest.first_le
    have hlook : decidedIn (⟨.inl .readFlag, false⟩ :: t) = decidedIn t := rfl
    rw [decidedIn_append, decidedIn_batch, hlook, hrest.decided_eq, hvalue]
    exact noncesBetween_append (by omega) (by omega)
  paced := by
    have hbatch {pace : Pace} (h : Paced lanes .rested t pace) :
        Paced lanes .rested (batch base n ++ ⟨.inl .readFlag, false⟩ :: t) pace :=
      (paced_batch base hle).append (.cons (.lowered (by simp)) h)
    rcases hrest.paced with ⟨later, hpaced, hlater⟩ | ⟨hpaced, hfound⟩
    · exact .inl ⟨later, hbatch hpaced, hlater⟩
    · exact .inr ⟨hbatch hpaced, hfound⟩
  finished hfound := by
    rcases hrest.finished hfound with hmax | hraised
    · exact .inl hmax
    · rw [looksIn_append]
      exact .inr (List.mem_append_right _ (List.mem_cons_of_mem _ hraised))

end Watched

theorem watched_of_trace {S : Type} {lanes : Nat} (hlanes : 0 < lanes)
    {hash : (base : Word) → (count : Nat) → count ≤ lanes → S × WorkItem →
      (S × WorkItem) × Option (Fin count)}
    {range : NonceRange} {base : Word} {first_le : range.first ≤ base} {le_last : base ≤ range.last}
    {s : S × WorkItem} {t : WatchedTranscript} {other : WorkItem} {run : Run range}
    (htrace : Routine.Trace (watchedBatches lanes hash range base first_le le_last s) t (other, run)) :
    Watched lanes base.toNat range.last t run.found run.last := by
  induction hleft : range.last.toNat - base.toNat using Nat.strong_induction_on
    generalizing base s t with
  | h left ih =>
    have hcount : min (range.last.toNat - base.toNat + 1) lanes ≤ lanes := Nat.min_le_right _ _
    rw [watchedBatches] at htrace
    simp only at htrace
    obtain ⟨t, rfl, hbatch⟩ := Routine.trace_mark_iff.mp htrace
    split at hbatch
    · rename_i scratch next lane heq
      obtain ⟨t, rfl, hdone⟩ := Routine.trace_mark_iff.mp hbatch
      obtain ⟨rfl, hresult⟩ := Routine.trace_done_iff.mp hdone
      cases hresult
      have hlane := lane.isLt
      have hinside : lane.val ≤ range.last.toNat - base.toNat := by omega
      exact .ended (congrArg (· + 1) (Word.toNat_add_of_le_sub hinside le_last)) (Nat.succ_pos _)
        (by omega) rfl fun h ↦ by cases h
    · rename_i scratch next heq
      obtain ⟨t, rfl, hrest⟩ := Routine.trace_mark_iff.mp hbatch
      have hinside : min (range.last.toNat - base.toNat + 1) lanes - 1 ≤
          range.last.toNat - base.toNat := by omega
      have hpos : 0 < min (range.last.toNat - base.toNat + 1) lanes := by omega
      have hlast := Word.toNat_add_of_le_sub hinside le_last
      have hvalue : (base + (min (range.last.toNat - base.toNat + 1) lanes - 1).toUInt32).toNat + 1 =
          base.toNat + min (range.last.toNat - base.toNat + 1) lanes := by omega
      split at hrest
      · rename_i hlast
        obtain ⟨rfl, hresult⟩ := Routine.trace_done_iff.mp hrest
        cases hresult
        exact .ended hvalue hpos hcount rfl fun _ ↦ hlast
      · rename_i hlast
        have hbelow := UInt32.lt_of_le_of_ne (Word.add_le_of_le_sub hinside le_last) hlast
        obtain ⟨raised, later, rfl, hafter⟩ := Routine.trace_ask_iff.mp hrest
        cases raised with
        | true =>
          obtain ⟨rfl, hresult⟩ := Routine.trace_done_iff.mp hafter
          cases hresult
          exact .cancelled hvalue hpos hcount
        | false =>
          have hdecreases := Word.sub_add_one_lt (Word.le_add_of_le_sub hinside le_last) hbelow
          have hwatched := ih _ (hleft ▸ hdecreases) hafter rfl
          rw [Word.toNat_add_one hbelow] at hwatched
          exact .cons hvalue hpos hcount hwatched

theorem watched_run {kernel : Kernel} {item other : WorkItem} {range : NonceRange}
    {t : WatchedTranscript} {run : Run range}
    (htrace : Routine.Trace (kernel.watchedRun item range) t (other, run)) :
    Watched kernel.lanes range.first.toNat range.last t run.found run.last := by
  cases kernel with
  | sha256d hasher => exact watched_of_trace hasher.lanes_range.1 htrace
  | scrypt =>
    simp only [watchedRun] at htrace
    generalize Scrypt.Table.empty = table at htrace
    exact watched_of_trace Nat.one_pos htrace

end Kernel

end Hashwork
