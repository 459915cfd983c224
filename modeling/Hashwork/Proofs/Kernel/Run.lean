import Hashwork.Proofs.Kernel.Batch
import Hashwork.Proofs.Routine.Trace

/-!
# Runs

A run covers its range batch by batch up to where it ends, whatever the flag answers: the nonces before the
last one are rejected, the last one is accepted or not as the run says, and the item is left as if the nonces
had been tried one at a time.  The flag decides only where a run ends that finds nothing.
-/

namespace Hashwork.Kernel

/-- What trying nonces in batches comes to, from `first` up to at most `max`, when `past` was the hash recorded
before and the flag gives these answers. -/
structure Ran (lanes : Nat) (item : WorkItem) (past : Digest) (first max : Nat) (answers : List Bool)
    (other : WorkItem) (found : Bool) (last : Word) : Prop where
  first_le : first ≤ last.toNat
  item_eq : other =
    item.record last (item.lastCandidate past (noncesBetween first (last.toNat + 1)))
  found_eq : found = item.accepts last
  rejected : ∀ n, first ≤ n → n < last.toNat → item.accepts n.toUInt32 = false
  /-- A batch that is followed by a look at the flag is a whole one. -/
  whole : first + lanes * answers.length ≤ last.toNat + 1
  within : last.toNat < first + lanes * (answers.length + 1)
  /-- After the flag has been seen raised no batch is begun. -/
  early : ∀ answer ∈ answers.dropLast, answer = false
  stopped : answers.getLast? = some true →
    found = false ∧ last.toNat + 1 = first + lanes * answers.length
  finished : answers.getLast? ≠ some true → found = false → last.toNat = max

namespace Ran

variable {lanes : Nat} {item other : WorkItem} {past : Digest} {first max : Nat}
  {answers : List Bool} {found : Bool} {last : Word}

/-- A batch with an accepted nonce is the last. -/
theorem accepted {lane : Nat} (hlast : last.toNat = first + lane) (hlane : lane < lanes)
    (haccepted : item.accepts last = true)
    (hrejected : ∀ n, first ≤ n → n < first + lane → item.accepts n.toUInt32 = false)
    (hitem : other = item.record last (item.powHash last)) :
    Ran lanes item past first max [] other true last where
  first_le := by omega
  item_eq := by rw [hitem, WorkItem.lastCandidate_of_accepts (by omega) haccepted]
  found_eq := haccepted.symm
  rejected n hn hlt := hrejected n hn (by omega)
  whole := by
    rw [List.length_nil]
    omega
  within := by
    rw [List.length_nil]
    omega
  early answer hmem := absurd hmem List.not_mem_nil
  stopped hlast := by cases hlast
  finished _ hfound := by cases hfound

/-- A batch without an accepted nonce may be the last too: at the end of the range, or because the flag is
seen raised. -/
theorem ended {count : Nat} (hlast : last.toNat + 1 = first + count) (hpos : 0 < count)
    (hcount : count ≤ lanes)
    (hrejected : ∀ n, first ≤ n → n < first + count → item.accepts n.toUInt32 = false)
    (hitem : item.Recorded (item.lastCandidate past (noncesBetween first (first + count))) other)
    (hanswers : answers = [] ∧ last.toNat = max ∨ answers = [true] ∧ count = lanes) :
    Ran lanes item past first max answers (other.tried last) false last where
  first_le := by omega
  item_eq := by rw [hitem last, hlast]
  found_eq := by
    rw [← hrejected last.toNat (by omega) (by omega), Nat.toUInt32_eq, UInt32.ofNat_toNat]
  rejected n hn hlt := hrejected n hn (by omega)
  whole := by
    rcases hanswers with ⟨rfl, -⟩ | ⟨rfl, rfl⟩
    · rw [List.length_nil]
      omega
    · rw [List.length_singleton]
      omega
  within := by
    rw [Nat.mul_succ]
    omega
  early answer hmem := by
    rcases hanswers with ⟨rfl, -⟩ | ⟨rfl, -⟩ <;> exact absurd hmem List.not_mem_nil
  stopped htrue := by
    rcases hanswers with ⟨rfl, -⟩ | ⟨rfl, rfl⟩
    · cases htrue
    · refine ⟨rfl, ?_⟩
      rw [List.length_singleton]
      omega
  finished hnot _ := by
    rcases hanswers with ⟨-, hmax⟩ | ⟨rfl, -⟩
    · exact hmax
    · exact absurd rfl hnot

/-- A batch without an accepted nonce goes before the rest of a run. -/
theorem cons (hrejected : ∀ n, first ≤ n → n < first + lanes → item.accepts n.toUInt32 = false)
    (h : Ran lanes item (item.lastCandidate past (noncesBetween first (first + lanes)))
      (first + lanes) max answers other found last) :
    Ran lanes item past first max (false :: answers) other found last where
  first_le := Nat.le_of_add_right_le h.first_le
  item_eq := by
    have happend := item.lastCandidate_append past (Nat.le_add_right first lanes)
      (Nat.le_succ_of_le h.first_le)
    rw [h.item_eq, happend]
  found_eq := h.found_eq
  rejected n hn hlt := by
    by_cases hbatch : n < first + lanes
    · exact hrejected n hn hbatch
    · exact h.rejected n (Nat.le_of_not_lt hbatch) hlt
  whole := by
    have hwhole := h.whole
    rw [List.length_cons, Nat.mul_succ]
    omega
  within := by
    have hwithin := h.within
    rw [List.length_cons, Nat.mul_succ]
    omega
  early answer hmem := by
    cases answers with
    | nil => exact absurd hmem List.not_mem_nil
    | cons next rest =>
      rcases List.mem_cons.mp hmem with rfl | hmem
      · rfl
      · exact h.early answer hmem
  stopped hlast := by
    cases answers with
    | nil => cases hlast
    | cons next rest =>
      obtain ⟨hfound, hcount⟩ := h.stopped hlast
      refine ⟨hfound, ?_⟩
      rw [List.length_cons, Nat.mul_succ]
      omega
  finished hlast hfound := by
    cases answers with
    | nil => exact h.finished (fun h ↦ by cases h) hfound
    | cons next rest => exact h.finished hlast hfound

/-- A run passes at most one share, which it ends with. -/
theorem acceptedShares_eq (h : Ran lanes item past first max answers other found last) :
    item.acceptedShares first (last.toNat + 1) = if found then [item.shareAt last] else [] := by
  split
  · rename_i hfound
    exact WorkItem.acceptedShares_succ h.first_le h.rejected (h.found_eq ▸ hfound)
  · rename_i hfound
    apply WorkItem.acceptedShares_eq_nil
    intro n hle hlt
    rcases Nat.lt_succ_iff_lt_or_eq.mp hlt with hearlier | rfl
    · exact h.rejected n hle hearlier
    · rw [Nat.toUInt32_eq, UInt32.ofNat_toNat, ← h.found_eq]
      exact Bool.eq_false_iff.mpr hfound

/-- The shares of a run that has found one and of what comes after it. -/
theorem acceptedShares_cons {finish : Nat} (h : Ran lanes item past first max answers other true last)
    (hle : last.toNat + 1 ≤ finish) :
    item.acceptedShares first finish =
      item.shareAt last :: item.acceptedShares (last.toNat + 1) finish := by
  calc
    item.acceptedShares first finish =
        item.acceptedShares first (last.toNat + 1) ++ item.acceptedShares (last.toNat + 1) finish :=
      (item.acceptedShares_append (Nat.le_succ_of_le h.first_le) hle).symm
    _ = item.shareAt last :: item.acceptedShares (last.toNat + 1) finish := by
      rw [h.acceptedShares_eq]
      rfl

/-- The share of a run can be read off the item. -/
theorem share_eq (h : Ran lanes item past first max answers other found last)
    (hfound : found = true) : (⟨last, other.hash⟩ : Share) = item.shareAt last := by
  have haccepted : item.accepts last = true := h.found_eq ▸ hfound
  have hhash : other.hash = item.powHash last := by
    calc
      other.hash = item.lastCandidate past (noncesBetween first (last.toNat + 1)) :=
        congrArg WorkItem.hash h.item_eq
      _ = item.powHash last := WorkItem.lastCandidate_of_accepts h.first_le haccepted
  rw [hhash, WorkItem.shareAt]

theorem template_eq (h : Ran lanes item past first max answers other found last) :
    other.template = item.template := by
  rw [h.item_eq, WorkItem.template_record]

end Ran

/-- The answers of the flag in a trace. -/
def flagAnswers (t : List (Routine.Exchange fun _ : Unit ↦ Bool)) : List Bool :=
  t.map fun exchange ↦ exchange.2

section Batches

variable {S : Type} {lanes : Nat}
  (hash : (base : Word) → (count : Nat) → count ≤ lanes → S × WorkItem →
    (S × WorkItem) × Option (Fin count))
  (range : NonceRange)

/-- How a run goes on from a nonce that a batch begins at: the answers of the flag, the item it is left with,
whether it has found a share, and where it ends. -/
inductive Batched : Word → S × WorkItem → List Bool → WorkItem → Bool → Word → Prop
  | accepted {base : Word} {s : S × WorkItem} {count : Nat} {h : count ≤ lanes} {scratch : S}
    {next : WorkItem} {lane : Fin count}
    (hcount : count = min (range.last.toNat - base.toNat + 1) lanes)
    (heq : hash base count h s = ((scratch, next), some lane)) :
    Batched base s [] next true (base + lane.val.toUInt32)
  | exhausted {base : Word} {s : S × WorkItem} {count : Nat} {h : count ≤ lanes} {scratch : S}
    {next : WorkItem} (hcount : count = min (range.last.toNat - base.toNat + 1) lanes)
    (heq : hash base count h s = ((scratch, next), none))
    (hlast : base + (count - 1).toUInt32 = range.last) :
    Batched base s [] (next.tried (base + (count - 1).toUInt32)) false
      (base + (count - 1).toUInt32)
  | cancelled {base : Word} {s : S × WorkItem} {count : Nat} {h : count ≤ lanes} {scratch : S}
    {next : WorkItem} (hcount : count = min (range.last.toNat - base.toNat + 1) lanes)
    (heq : hash base count h s = ((scratch, next), none))
    (hbelow : base + (count - 1).toUInt32 < range.last) :
    Batched base s [true] (next.tried (base + (count - 1).toUInt32)) false
      (base + (count - 1).toUInt32)
  | continued {base : Word} {s : S × WorkItem} {count : Nat} {h : count ≤ lanes} {scratch : S}
    {next other : WorkItem} {answers : List Bool} {found : Bool} {last : Word}
    (hcount : count = min (range.last.toNat - base.toNat + 1) lanes)
    (heq : hash base count h s = ((scratch, next), none))
    (hbelow : base + (count - 1).toUInt32 < range.last)
    (hrest : Batched (base + (count - 1).toUInt32 + 1)
      (scratch, next.tried (base + (count - 1).toUInt32)) answers other found last) :
    Batched base s (false :: answers) other found last

variable {hash} {range} {item other : WorkItem} {base last : Word} {s : S × WorkItem}
  {answers : List Bool} {found : Bool}

/-- This is all that a run can do. -/
theorem batched_of_trace {first_le : range.first ≤ base} {le_last : base ≤ range.last}
    {t : List (Routine.Exchange fun _ : Unit ↦ Bool)} {run : Run range}
    (htrace : Routine.Trace (runBatches lanes hash range base first_le le_last s) t (other, run)) :
    Batched hash range base s (flagAnswers t) other run.found run.last := by
  induction hleft : range.last.toNat - base.toNat using Nat.strong_induction_on
    generalizing base s t with
  | h left ih =>
    rw [runBatches] at htrace
    simp only at htrace
    split at htrace
    · rename_i scratch next lane heq
      obtain ⟨rfl, hresult⟩ := Routine.trace_done_iff.mp htrace
      cases hresult
      exact .accepted rfl heq
    · rename_i scratch next heq
      split at htrace
      · rename_i hlast
        obtain ⟨rfl, hresult⟩ := Routine.trace_done_iff.mp htrace
        cases hresult
        exact .exhausted rfl heq hlast
      · rename_i hlast
        have hinside : min (range.last.toNat - base.toNat + 1) lanes - 1 ≤
            range.last.toNat - base.toNat := by omega
        have hbelow := UInt32.lt_of_le_of_ne (Word.add_le_of_le_sub hinside le_last) hlast
        obtain ⟨raised, t', rfl, hrest⟩ := Routine.trace_ask_iff.mp htrace
        split at hrest
        · rename_i hraised
          subst hraised
          obtain ⟨rfl, hresult⟩ := Routine.trace_done_iff.mp hrest
          cases hresult
          exact .cancelled rfl heq hbelow
        · rename_i hraised
          obtain rfl : raised = false := Bool.eq_false_iff.mpr hraised
          have hdecreases := Word.sub_add_one_lt (Word.le_add_of_le_sub hinside le_last) hbelow
          exact .continued rfl heq hbelow (ih _ (hleft ▸ hdecreases) hrest rfl)

theorem ran_of_batched (hlanes : 0 < lanes) (htries : TriesBatches lanes hash item)
    (h : Batched hash range base s answers other found last) (hle : base ≤ range.last)
    {past : Digest} (hrecorded : item.Recorded past s.2) :
    Ran lanes item past base.toNat range.last.toNat answers other found last := by
  -- A batch ends at the end of the range, or else it is whole.
  have hend {base : Word} {count : Nat} (hle : base ≤ range.last)
      (hcount : count = min (range.last.toNat - base.toNat + 1) lanes) :
      0 < count ∧ (base + (count - 1).toUInt32).toNat + 1 = base.toNat + count := by
    have hinside : count - 1 ≤ range.last.toNat - base.toNat := by omega
    have hlast := Word.toNat_add_of_le_sub hinside hle
    omega
  have hwhole {base : Word} {count : Nat} (hle : base ≤ range.last)
      (hcount : count = min (range.last.toNat - base.toNat + 1) lanes)
      (hbelow : base + (count - 1).toUInt32 < range.last) : count = lanes := by
    have hlast := (hend hle hcount).2
    have hlt : (base + (count - 1).toUInt32).toNat < range.last.toNat := hbelow
    omega
  induction h generalizing past with
  | @accepted base s count _ scratch next lane hcount heq =>
    obtain ⟨haccepted, hrejected, hitem⟩ := htries.accepted (hend hle hcount).1 hrecorded heq
    have hlane := lane.isLt
    have hinside : lane.val ≤ range.last.toNat - base.toNat := by omega
    exact .accepted (Word.toNat_add_of_le_sub hinside hle) (by omega) haccepted hrejected hitem
  | exhausted hcount heq hlast =>
    obtain ⟨hpos, hnext⟩ := hend hle hcount
    obtain ⟨hrejected, hitem⟩ := htries.rejected hpos hrecorded heq
    exact .ended hnext hpos (hcount ▸ Nat.min_le_right ..) hrejected hitem
      (.inl ⟨rfl, congrArg _ hlast⟩)
  | cancelled hcount heq hbelow =>
    obtain ⟨hpos, hnext⟩ := hend hle hcount
    obtain ⟨hrejected, hitem⟩ := htries.rejected hpos hrecorded heq
    exact .ended hnext hpos (hcount ▸ Nat.min_le_right ..) hrejected hitem
      (.inr ⟨rfl, hwhole hle hcount hbelow⟩)
  | continued hcount heq hbelow _ ih =>
    obtain ⟨hpos, hnext⟩ := hend hle hcount
    obtain ⟨hrejected, hitem⟩ := htries.rejected hpos hrecorded heq
    have hran := ih (Word.add_one_le hbelow) (hitem.tried _)
    rw [Word.toNat_add_one hbelow, hnext, hwhole hle hcount hbelow] at hran
    rw [hwhole hle hcount hbelow] at hrejected
    exact .cons hrejected hran

/-- Where no batch changes the template, no run does. -/
theorem template_of_batched
    (hbatch : ∀ base count h (s : S × WorkItem), (hash base count h s).1.2.template = s.2.template)
    (h : Batched hash range base s answers other found last) : other.template = s.2.template := by
  have hnext {base : Word} {count : Nat} {h : count ≤ lanes} {s : S × WorkItem} {scratch : S}
      {next : WorkItem} {found : Option (Fin count)}
      (heq : hash base count h s = ((scratch, next), found)) : next.template = s.2.template := by
    rw [← hbatch base count h s, heq]
  induction h with
  | accepted _ heq => exact hnext heq
  | exhausted _ heq _ => rw [WorkItem.template_tried, hnext heq]
  | cancelled _ heq _ => rw [WorkItem.template_tried, hnext heq]
  | continued _ heq _ _ ih => rw [ih, WorkItem.template_tried, hnext heq]

end Batches

variable {kernel : Kernel} {item other : WorkItem} {range : NonceRange} {run : Run range}
  {t : List (Routine.Exchange fun _ : Unit ↦ Bool)}

/-- A run of an exact kernel that serves the item. -/
theorem ran_run (hexact : kernel.Exact) (hpow : item.pow = kernel.pow) (hconsistent : item.Consistent)
    (htrace : Routine.Trace (kernel.run item range) t (other, run)) :
    Ran kernel.lanes item item.hash range.first.toNat range.last.toNat (flagAnswers t) other run.found
      run.last := by
  cases kernel with
  | sha256d hasher =>
    exact ran_of_batched hasher.lanes_range.1 (triesBatches_hashBatch hexact hconsistent hpow)
      (batched_of_trace htrace) range.ordered (.refl item)
  | scrypt =>
    simp only [Kernel.run] at htrace
    generalize Scrypt.Table.empty = table at htrace
    exact ran_of_batched Nat.one_pos (triesBatches_scryptBatch hpow) (batched_of_trace htrace)
      range.ordered (.refl item)

theorem template_sift {hasher : Hasher} {prepared : Prepared} {base : Word} {count : Nat}
    {h : count ≤ hasher.lanes} {words : Vector Word hasher.lanes} (lanes : List (Fin count))
    (item : WorkItem) :
    (sift hasher prepared base h words lanes item).1.template = item.template := by
  induction lanes generalizing item with
  | nil => rfl
  | cons lane rest ih =>
    simp only [sift]
    split
    · split
      · simp
      · rw [ih]
        simp
    · exact ih item

theorem template_hashBatch (hasher : Hasher) (prepared : Prepared) (base : Word) (count : Nat)
    (h : count ≤ hasher.lanes) (s : Vector Word hasher.lanes × WorkItem) :
    (hashBatch hasher prepared base count h s).1.2.template = s.2.template :=
  template_sift _ s.2

theorem template_scryptBatch (base : Word) (count : Nat) (h : count ≤ 1)
    (s : Scrypt.Table × WorkItem) : (scryptBatch base count h s).1.2.template = s.2.template := by
  rw [scryptBatch]
  obtain ⟨hash, table⟩ := Scrypt.hashWith s.1 (s.2.header.withNonce base).bytes
  dsimp only
  split <;> exact WorkItem.template_record _ _

/-- No kernel changes the template, whether it is exact or not. -/
theorem template_run (htrace : Routine.Trace (kernel.run item range) t (other, run)) :
    other.template = item.template := by
  cases kernel with
  | sha256d hasher =>
    simp only [Kernel.run] at htrace
    have htemplate := template_of_batched (template_hashBatch hasher _) (batched_of_trace htrace)
    exact htemplate
  | scrypt =>
    simp only [Kernel.run] at htrace
    generalize Scrypt.Table.empty = table at htrace
    have htemplate := template_of_batched template_scryptBatch (batched_of_trace htrace)
    exact htemplate

end Hashwork.Kernel
