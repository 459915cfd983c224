import Hashwork.Proofs.Kernel.Simulation
import Hashwork.Proofs.Kernel.Steady
import Hashwork.Proofs.Scan.Overflow
import Hashwork.Proofs.Work.Reachable

/-!
# What a run comes to

Under a flag that stays as it is, a run is determined by the hashes of its range and by the size of a batch,
and by the size of a batch only if the flag is raised.  A kernel goes by its own proof of work; it does not
look at the one that the item names.
-/

namespace Hashwork.Kernel

/-! ## The proof of work of the item -/

section WithPow

variable (pow : ProofOfWork)

@[simp]
theorem target_withPow (item : WorkItem) : (item.withPow pow).target = item.target := rfl

@[simp]
theorem record_withPow (item : WorkItem) (nonce : Word) (hash : Digest) :
    (item.withPow pow).record nonce hash = (item.record nonce hash).withPow pow := rfl

@[simp]
theorem tried_withPow (item : WorkItem) (nonce : Word) :
    (item.withPow pow).tried nonce = (item.tried nonce).withPow pow := rfl

theorem sift_withPow {hasher : Hasher} {prepared : Prepared} {base : Word} {count : Nat}
    {h : count ≤ hasher.lanes} {words : Vector Word hasher.lanes} (lanes : List (Fin count))
    (item : WorkItem) :
    sift hasher prepared base h words lanes (item.withPow pow) =
      ((sift hasher prepared base h words lanes item).1.withPow pow,
        (sift hasher prepared base h words lanes item).2) := by
  induction lanes generalizing item with
  | nil => rfl
  | cons lane rest ih =>
    simp only [sift, target_withPow, record_withPow, ih]
    split
    · split <;> rfl
    · rfl

theorem hashBatch_withPow {hasher : Hasher} {prepared : Prepared} {base : Word} {count : Nat}
    {h : count ≤ hasher.lanes} (scratch : Vector Word hasher.lanes) (item : WorkItem) :
    hashBatch hasher prepared base count h (scratch, item.withPow pow) =
      ((hashBatch hasher prepared base count h (scratch, item)).1.map id (·.withPow pow),
        (hashBatch hasher prepared base count h (scratch, item)).2) := by
  simp only [hashBatch, sift_withPow, Prod.map_apply, id_eq]

theorem scryptBatch_withPow {base : Word} {count : Nat} {h : count ≤ 1}
    {s s' : Scrypt.Table × WorkItem} (htable : s'.1 = s.1) (hitem : s'.2 = s.2.withPow pow) :
    scryptBatch base count h s' =
      ((scryptBatch base count h s).1.map id (·.withPow pow), (scryptBatch base count h s).2) := by
  have hhashed : Scrypt.hashWith s'.1 (s'.2.header.withNonce base).bytes =
      Scrypt.hashWith s.1 (s.2.header.withNonce base).bytes := by
    rw [htable, hitem]
    rfl
  rw [scryptBatch, scryptBatch, hhashed]
  generalize Scrypt.hashWith s.1 (s.2.header.withNonce base).bytes = hashed
  obtain ⟨hash, table⟩ := hashed
  simp only [hitem, record_withPow, target_withPow]
  split <;> rfl

/-- Where no batch depends on the proof of work, no run does. -/
theorem runBatches_withPow {S : Type} {lanes : Nat}
    {hash : (base : Word) → (count : Nat) → count ≤ lanes → S × WorkItem →
      (S × WorkItem) × Option (Fin count)}
    (hhash : ∀ base count h scratch item, hash base count h (scratch, item.withPow pow) =
      ((hash base count h (scratch, item)).1.map id (·.withPow pow),
        (hash base count h (scratch, item)).2))
    {range : NonceRange} {base : Word} (first_le : range.first ≤ base) (le_last : base ≤ range.last)
    (scratch : S) (item : WorkItem) :
    runBatches lanes hash range base first_le le_last (scratch, item.withPow pow) =
      (runBatches lanes hash range base first_le le_last (scratch, item)).bind
        fun result ↦ .done (result.1.withPow pow, result.2) := by
  have hbatch (base : Word) (count : Nat) (h : count ≤ lanes) (s s' : S) (item : WorkItem)
      (heq : s = s') :
      (hash base count h (s, item)).1.1 = (hash base count h (s', item.withPow pow)).1.1 ∧
        (hash base count h (s', item.withPow pow)).1.2 =
          (hash base count h (s, item)).1.2.withPow pow ∧
            (hash base count h (s', item.withPow pow)).2 = (hash base count h (s, item)).2 := by
    rw [← heq, hhash]
    exact ⟨rfl, rfl, rfl⟩
  exact runBatches_map (·.withPow pow) Eq (tried_withPow pow) hbatch first_le le_last scratch scratch
    rfl item

/-- No run depends on the proof of work that the item names. -/
theorem run_withPow (kernel : Kernel) (item : WorkItem) (range : NonceRange) :
    kernel.run (item.withPow pow) range =
      (kernel.run item range).bind fun result ↦ .done (result.1.withPow pow, result.2) := by
  cases kernel with
  | sha256d hasher =>
    have hprepared : Prepared.ofItem (item.withPow pow) = Prepared.ofItem item := rfl
    simp only [run, hprepared]
    exact runBatches_withPow pow (fun _ _ _ ↦ hashBatch_withPow pow) _ _ _ _
  | scrypt =>
    simp only [run]
    generalize Scrypt.Table.empty = table
    exact runBatches_withPow pow (fun _ _ _ _ _ ↦ scryptBatch_withPow pow rfl rfl) _ _ _ _

theorem runSteady_withPow (kernel : Kernel) (cancelled : Bool) (item : WorkItem)
    (range : NonceRange) :
    kernel.runSteady cancelled (item.withPow pow) range =
      ((kernel.runSteady cancelled item range).1.withPow pow,
        (kernel.runSteady cancelled item range).2) := by
  rw [runSteady, run_withPow, Routine.run_bind]
  rfl

end WithPow

/-! ## Outcomes -/

/-- The hash that a kernel is to find for a nonce. -/
def hashAt (kernel : Kernel) (item : WorkItem) (nonce : Word) : Digest :=
  (item.withPow kernel.pow).powHash nonce

/-- Whether the last word of the final state leaves acceptance possible.  The scrypt kernel does not look. -/
def passesFastReject (kernel : Kernel) (item : WorkItem) (nonce : Word) : Bool :=
  match kernel with
  | sha256d _ =>
    Sha256.mayBeAccepted ((Prepared.ofItem item).finalState nonce).h item.target.topWord
  | scrypt => true

/-- Where a run ends that finds nothing: a raised flag lets it try one batch. -/
def limit (kernel : Kernel) (cancelled : Bool) (range : NonceRange) : Nat :=
  if cancelled then min (range.first.toNat + kernel.lanes - 1) range.last.toNat
  else range.last.toNat

/-- What a run over a range makes of an item, and what it says, while the flag stays as it is. -/
structure Outcome (kernel : Kernel) (cancelled : Bool) (item : WorkItem) (range : NonceRange)
    (other : WorkItem) (run : Run range) : Prop where
  found_iff : run.found = true ↔
    ∃ nonce, range.first ≤ nonce ∧ nonce.toNat ≤ kernel.limit cancelled range ∧
      item.target.accepts (kernel.hashAt item nonce) = true
  last_le : run.last.toNat ≤ kernel.limit cancelled range
  earlier : ∀ nonce, range.first ≤ nonce → nonce < run.last →
    item.target.accepts (kernel.hashAt item nonce) = false
  last_accepted : run.found = true → item.target.accepts (kernel.hashAt item run.last) = true
  last_eq : run.found = false → run.last.toNat = kernel.limit cancelled range
  nonce_eq : other.header.nonce = run.last
  /-- Nothing changes but the nonce in the header and the recorded hash. -/
  item_eq : other = item.record run.last other.hash
  hash_eq :
    (∃ nonce, range.first ≤ nonce ∧ nonce ≤ run.last ∧ kernel.passesFastReject item nonce = true ∧
      (∀ later, nonce < later → later ≤ run.last → kernel.passesFastReject item later = false) ∧
        other.hash = kernel.hashAt item nonce) ∨
      (∀ nonce, range.first ≤ nonce → nonce ≤ run.last →
        kernel.passesFastReject item nonce = false) ∧ other.hash = item.hash

/-- Under a steady flag a run that has found nothing has come to the limit. -/
theorem Ran.last_le_limit {kernel : Kernel} {cancelled : Bool} {item other : WorkItem}
    {range : NonceRange} {past : Digest} {answers : List Bool} {found : Bool} {last : Word}
    (h : Ran kernel.lanes item past range.first.toNat range.last.toNat answers other found last)
    (hsteady : ∀ answer ∈ answers, answer = cancelled) (hlast : last ≤ range.last) :
    last.toNat ≤ kernel.limit cancelled range ∧
      (found = false → last.toNat = kernel.limit cancelled range) := by
  have hmax : last.toNat ≤ range.last.toNat := hlast
  have hwithin := h.within
  cases cancelled with
  | false =>
    have hnot : answers.getLast? ≠ some true := by
      intro htrue
      cases hsteady true (List.mem_of_getLast? htrue)
    exact ⟨hmax, h.finished hnot⟩
  | true =>
    simp only [limit, if_true]
    match answers with
    | [] =>
      rw [List.length_nil] at hwithin
      constructor
      · omega
      · intro hfound
        have hfinished := h.finished (by simp) hfound
        omega
    | [answer] =>
      obtain rfl : answer = true := hsteady answer (List.mem_singleton_self answer)
      obtain ⟨-, hcount⟩ := h.stopped rfl
      rw [List.length_singleton] at hcount
      constructor
      · omega
      · intro _
        omega
    | answer :: next :: rest =>
      have hearly := h.early answer List.mem_cons_self
      rw [hsteady answer List.mem_cons_self] at hearly
      cases hearly

variable {kernel : Kernel} {item : WorkItem}

/-- A run of an exact kernel goes by the hashes of its own proof of work. -/
theorem exists_ran_runSteady (hexact : kernel.Exact) (hconsistent : item.Consistent)
    (cancelled : Bool) (range : NonceRange) :
    ∃ answers, (∀ answer ∈ answers, answer = cancelled) ∧
      Ran kernel.lanes (item.withPow kernel.pow) item.hash range.first.toNat range.last.toNat answers
        ((kernel.runSteady cancelled item range).1.withPow kernel.pow)
        (kernel.runSteady cancelled item range).2.found
        (kernel.runSteady cancelled item range).2.last := by
  obtain ⟨t, htrace, hsteady⟩ :=
    exists_trace_runSteady kernel cancelled (item.withPow kernel.pow) range
  rw [runSteady_withPow] at htrace
  have hconsistent' : (item.withPow kernel.pow).Consistent :=
    ⟨hconsistent.midstate_eq, hconsistent.pad_eq⟩
  refine ⟨flagAnswers t, ?_, ran_run hexact rfl hconsistent' htrace⟩
  intro answer hmem
  obtain ⟨exchange, hexchange, rfl⟩ := List.mem_map.mp hmem
  exact hsteady exchange hexchange

/-- The fast reject picks the candidates. -/
theorem passesFastReject_eq (hconsistent : item.Consistent) (nonce : Word) :
    kernel.passesFastReject item nonce = (item.withPow kernel.pow).candidate nonce := by
  cases kernel with
  | sha256d hasher =>
    have hconsistent' : (item.withPow .sha256d).Consistent :=
      ⟨hconsistent.midstate_eq, hconsistent.pad_eq⟩
    exact mayBeAccepted_eq_candidate hconsistent' rfl nonce
  | scrypt => rfl

/-- After a range of words the recorded hash is that of its last candidate, if it has any. -/
theorem lastCandidate_upTo (item : WorkItem) (past : Digest) {first last : Word} (h : first ≤ last) :
    (∃ nonce, first ≤ nonce ∧ nonce ≤ last ∧ item.candidate nonce = true ∧
      (∀ later, nonce < later → later ≤ last → item.candidate later = false) ∧
        item.lastCandidate past (noncesBetween first.toNat (last.toNat + 1)) = item.powHash nonce) ∨
      (∀ nonce, first ≤ nonce → nonce ≤ last → item.candidate nonce = false) ∧
        item.lastCandidate past (noncesBetween first.toNat (last.toNat + 1)) = past := by
  have hfinish : last.toNat + 1 ≤ UInt32.size := last.toNat_lt
  have hround (nonce : Word) : nonce.toNat.toUInt32 = nonce := UInt32.ofNat_toNat
  rcases item.lastCandidate_cases past (Nat.le_succ_of_le h) with
    ⟨n, hle, hlt, hcandidate, hlater, heq⟩ | ⟨hnone, heq⟩
  · have hword : n.toUInt32.toNat = n := UInt32.toNat_ofNat_of_lt' (Nat.lt_of_lt_of_le hlt hfinish)
    refine .inl ⟨n.toUInt32, ?_, ?_, hcandidate, ?_, heq⟩
    · rw [UInt32.le_iff_toNat_le, hword]
      exact hle
    · rw [UInt32.le_iff_toNat_le, hword]
      exact Nat.le_of_lt_succ hlt
    · intro later hafter hbefore
      rw [UInt32.lt_iff_toNat_lt, hword] at hafter
      rw [← hround later]
      exact hlater later.toNat hafter (Nat.lt_succ_of_le hbefore)
  · refine .inr ⟨?_, heq⟩
    intro nonce hle hbefore
    rw [← hround nonce]
    exact hnone nonce.toNat hle (Nat.lt_succ_of_le hbefore)

theorem outcome_of_ran {cancelled : Bool} {range : NonceRange} {other : WorkItem} {run : Run range}
    {answers : List Bool} (hconsistent : item.Consistent)
    (hsteady : ∀ answer ∈ answers, answer = cancelled)
    (htemplate : other.template = item.template)
    (h : Ran kernel.lanes (item.withPow kernel.pow) item.hash range.first.toNat range.last.toNat
      answers (other.withPow kernel.pow) run.found run.last) :
    Outcome kernel cancelled item range other run := by
  have hlimit := h.last_le_limit hsteady run.le_last
  have hearlier (nonce : Word) (hle : range.first ≤ nonce) (hlt : nonce < run.last) :
      item.target.accepts (kernel.hashAt item nonce) = false := by
    have hrejected := h.rejected nonce.toNat hle hlt
    rw [Nat.toUInt32_eq, UInt32.ofNat_toNat] at hrejected
    exact hrejected
  have hhash : other.hash = (item.withPow kernel.pow).lastCandidate item.hash
      (noncesBetween range.first.toNat (run.last.toNat + 1)) :=
    congrArg WorkItem.hash h.item_eq
  have hitem : other = item.record run.last other.hash := by
    calc
      other = (other.withPow kernel.pow).withPow other.pow := rfl
      _ = (item.record run.last other.hash).withPow item.pow := by
        rw [h.item_eq, ← hhash, WorkItem.pow_eq_of_template htemplate]
        rfl
      _ = item.record run.last other.hash := rfl
  constructor
  case found_iff =>
    constructor
    · intro hfound
      exact ⟨run.last, run.first_le, hlimit.1, h.found_eq.symm.trans hfound⟩
    · rintro ⟨nonce, hle, hwithin, haccepted⟩
      by_contra hnot
      have hlast := hlimit.2 (Bool.eq_false_iff.mpr hnot)
      rcases Nat.lt_or_eq_of_le (hlast ▸ hwithin) with hlt | heq
      · rw [hearlier nonce hle hlt] at haccepted
        cases haccepted
      · rw [UInt32.toNat_inj.mp heq] at haccepted
        exact hnot (h.found_eq.trans haccepted)
  case last_le => exact hlimit.1
  case earlier => exact hearlier
  case last_accepted => exact fun hfound ↦ h.found_eq.symm.trans hfound
  case last_eq => exact hlimit.2
  case nonce_eq =>
    rw [hitem]
    exact Header.nonce_withNonce _ _
  case item_eq => exact hitem
  case hash_eq =>
    rw [hhash]
    simp only [passesFastReject_eq hconsistent]
    exact lastCandidate_upTo _ item.hash run.first_le

/-- A run of an exact kernel: no arithmetic overflows, and it comes to this. -/
theorem outcome_of_exact (hexact : kernel.Exact) (hreachable : item.Reachable) (cancelled : Bool)
    (range : NonceRange) :
    (kernel.guardedRun item range).run (m := Id) (fun _ ↦ cancelled) =
        some (kernel.runSteady cancelled item range) ∧
      Outcome kernel cancelled item range (kernel.runSteady cancelled item range).1
        (kernel.runSteady cancelled item range).2 := by
  constructor
  · rw [guardedRun_eq, Routine.run_bind]
    rfl
  · have hconsistent := hreachable.consistent
    obtain ⟨answers, hsteady, hran⟩ := exists_ran_runSteady hexact hconsistent cancelled range
    have htemplate := template_runSteady kernel cancelled item range
    exact outcome_of_ran hconsistent hsteady htemplate hran

/-- Every run of every kernel there is, on every item there is, under either state of the flag. -/
theorem runSteady_outcome (algorithm : Algorithm) (hreachable : item.Reachable) (cancelled : Bool)
    (range : NonceRange) :
    (algorithm.implementation.guardedRun item range).run (m := Id) (fun _ ↦ cancelled) =
        some (algorithm.implementation.runSteady cancelled item range) ∧
      Outcome algorithm.implementation cancelled item range
        (algorithm.implementation.runSteady cancelled item range).1
        (algorithm.implementation.runSteady cancelled item range).2 :=
  outcome_of_exact algorithm.exact_implementation hreachable cancelled range

/-- Two nonces that are both accepted, at the end of the range of all nonces and far from filling a batch. -/
theorem outcome_runSteady_top :
    Outcome (.sha256d .packed4By8) true (.ofHeader ⟨Vector.replicate 80 0⟩ .max ⟨0⟩)
      ⟨0xfffffffe, 0xffffffff, by decide⟩
      ((sha256d .packed4By8).runSteady true (.ofHeader ⟨Vector.replicate 80 0⟩ .max ⟨0⟩)
        ⟨0xfffffffe, 0xffffffff, by decide⟩).1
      ((sha256d .packed4By8).runSteady true (.ofHeader ⟨Vector.replicate 80 0⟩ .max ⟨0⟩)
        ⟨0xfffffffe, 0xffffffff, by decide⟩).2 :=
  (runSteady_outcome .neon (.ofHeader _ _ _) true _).2

end Hashwork.Kernel
