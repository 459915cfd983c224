import Hashwork.Proofs.Kernel.Steady
import Hashwork.Proofs.Scan.Call
import Mathlib.Logic.Relation

/-!
# What can happen to an item

An item is run, scanned, cancelled and reset, told where to go on, given another proof of work or another
flag, and copied, again and again and in any order.  What its hashes depend on is in the end what it was in the
beginning: in the header the nonce alone has been written to, and the midstate and the padding are right for
every nonce.
-/

namespace Hashwork.WorkItem

/-! ## What the hashes depend on -/

/-- The template without the proof of work and the flag, both of which can be exchanged. -/
def core (item : WorkItem) : WorkItem :=
  (item.template.withPow .sha256d).withCancelFlag ⟨0⟩

variable {item other : WorkItem}

theorem core_eq_of_template (h : item.template = other.template) : item.core = other.core := by
  rw [core, h, core]

/-- Before the nonce the headers are the same. -/
theorem bytes_eq_of_core (h : item.core = other.core) (k : Nat) (hk : k < 76) (hlt : k < 80) :
    item.header.bytes[k] = other.header.bytes[k] := by
  have hheader : item.header.withNonce 0 = other.header.withNonce 0 := congrArg (·.header) h
  calc
    item.header.bytes[k] = (item.header.withNonce 0).bytes[k] :=
      (item.header.withNonce_getElem_of_lt 0 k hk).symm
    _ = (other.header.withNonce 0).bytes[k] := by rw [hheader]
    _ = other.header.bytes[k] := other.header.withNonce_getElem_of_lt 0 k hk

theorem target_eq_of_core (h : item.core = other.core) : item.target = other.target :=
  congrArg (·.target) h

theorem consistent_of_core (h : item.core = other.core) (hother : other.Consistent) :
    item.Consistent := by
  have hheader : item.header.withNonce 0 = other.header.withNonce 0 := congrArg (·.header) h
  have hmidstate : item.midstate = other.midstate := congrArg (·.midstate) h
  have hpad : item.pad = other.pad := congrArg (·.pad) h
  constructor
  · calc
      item.midstate = other.header.midstate := hmidstate.trans hother.midstate_eq
      _ = (other.header.withNonce 0).midstate := (other.header.midstate_withNonce 0).symm
      _ = (item.header.withNonce 0).midstate := by rw [hheader]
      _ = item.header.midstate := item.header.midstate_withNonce 0
  · exact hpad.trans hother.pad_eq

theorem powHash_eq_of_core (h : item.core = other.core) (pow : ProofOfWork) (nonce : Word) :
    (item.withPow pow).powHash nonce = (other.withPow pow).powHash nonce := by
  have hheader : item.header.withNonce nonce = other.header.withNonce nonce :=
    Header.withNonce_congr nonce fun k hk ↦ bytes_eq_of_core h k hk (by omega)
  simp only [powHash, withPow, hheader]

theorem checkShare_eq_of_core (h : item.core = other.core) (pow : ProofOfWork) (share : Share) :
    (item.withPow pow).checkShare share = (other.withPow pow).checkShare share := by
  have htarget : (item.withPow pow).target = (other.withPow pow).target := target_eq_of_core h
  rw [checkShare, checkShare, powHash_eq_of_core h, htarget]

/-- The double hash from the midstate is that of the header. -/
theorem referenceHash_of_consistent (h : item.Consistent) (nonce : Word) :
    item.referenceHash nonce = (item.withPow .sha256d).powHash nonce := by
  have hconsistent : (item.withPow .sha256d).Consistent := ⟨h.midstate_eq, h.pad_eq⟩
  have hreference : item.referenceHash nonce = (item.withPow .sha256d).referenceHash nonce := by
    simp only [referenceHash, withPow]
  rw [hreference, powHash_of_consistent hconsistent rfl nonce]
  rfl

/-! ## Operations -/

/-- What can be done to one item, while others may raise and lower flags during runs and scans.  Any kernel and
any scanner will do, whether it is right or not. -/
inductive Operation : WorkItem × FlagTable → WorkItem × FlagTable → Prop
  | run {kernel : Kernel} {range : NonceRange} {item other : WorkItem} {run : Run range}
    {flags flags' : FlagTable} {t : List (Routine.Exchange fun _ : Unit ↦ Bool)}
    (htrace : Routine.Trace (kernel.run item range) t (other, run)) :
    Operation (item, flags) (other, flags')
  | scan {scanner : Scanner} {ceiling : Nat} {item other : WorkItem} {report : Scan.Report}
    {flags flags' : FlagTable} {t : Scan.Transcript}
    (htrace : Routine.Trace (scanner.scan item ceiling) t (other, report)) :
    Operation (item, flags) (other, flags')
  | cancel (item : WorkItem) (flags : FlagTable) :
    Operation (item, flags) (item, flags.raise item.cancel)
  | reset (item : WorkItem) (flags : FlagTable) :
    Operation (item, flags) (item, flags.lower item.cancel)
  | withNextNonce (item : WorkItem) (flags : FlagTable) (nonce : Nat) :
    Operation (item, flags) (item.withNextNonce nonce, flags)
  | withPow (item : WorkItem) (flags : FlagTable) (pow : ProofOfWork) :
    Operation (item, flags) (item.withPow pow, flags)
  | withCancelFlag (item : WorkItem) (flags : FlagTable) (cancel : CancelFlag) :
    Operation (item, flags) (item.withCancelFlag cancel, flags)

/-- An item and its copies, with the flags.  One of them is operated on, or copied once more. -/
inductive Step : List WorkItem × FlagTable → List WorkItem × FlagTable → Prop
  | operate {items : List WorkItem} {i : Nat} {item other : WorkItem} {flags flags' : FlagTable}
    (hitem : items[i]? = some item) (h : Operation (item, flags) (other, flags')) :
    Step (items, flags) (items.set i other, flags')
  | clone {items : List WorkItem} {item : WorkItem} {flags : FlagTable} (hmem : item ∈ items) :
    Step (items, flags) (items ++ [item], flags)

theorem Operation.core_eq {state state' : WorkItem × FlagTable} (h : Operation state state') :
    state'.1.core = state.1.core := by
  cases h with
  | run htrace => exact core_eq_of_template (Kernel.template_run htrace)
  | scan htrace => exact core_eq_of_template (Scanner.template_scan htrace)
  | cancel => rfl
  | reset => rfl
  | withNextNonce => rfl
  | withPow => rfl
  | withCancelFlag => rfl

/-- A step leaves the cores of all items as they are. -/
theorem Step.core_eq {core : WorkItem} {state state' : List WorkItem × FlagTable}
    (h : Step state state') (hcore : ∀ item ∈ state.1, item.core = core) :
    ∀ item ∈ state'.1, item.core = core := by
  intro result hmem
  cases h with
  | @operate items i item other flags flags' hitem h =>
    rcases List.mem_or_eq_of_mem_set hmem with hbefore | rfl
    · exact hcore result hbefore
    · exact h.core_eq.trans (hcore item (List.mem_of_getElem? hitem))
  | @clone items item flags hitem =>
    rcases List.mem_append.mp hmem with hbefore | hmem
    · exact hcore result hbefore
    · rw [List.mem_singleton.mp hmem]
      exact hcore item hitem

/-- However many steps are taken, every copy has the core of the item there was at first. -/
theorem core_eq_of_steps {flags : FlagTable} {state : List WorkItem × FlagTable}
    (h : Relation.ReflTransGen Step ([item], flags) state) :
    ∀ other ∈ state.1, other.core = item.core := by
  induction h with
  | refl =>
    intro other hmem
    rw [List.mem_singleton.mp hmem]
  | tail _ hstep ih => exact hstep.core_eq ih

/-- An item as it was made: its midstate and padding are those of its header, and in all hashes and checks it
is the fresh item. -/
structure Unaltered (fresh item : WorkItem) : Prop where
  midstate_eq : item.midstate = item.header.midstate
  pad_eq : item.pad = Sha256.digestPad
  target_eq : item.target = fresh.target
  bytes_eq : ∀ k, k < 76 → ∀ hlt : k < 80, item.header.bytes[k] = fresh.header.bytes[k]
  referenceHash_eq : ∀ nonce, item.referenceHash nonce = fresh.referenceHash nonce
  powHash_eq : ∀ pow nonce, (item.withPow pow).powHash nonce = (fresh.withPow pow).powHash nonce
  checkShare_eq : ∀ pow share,
    (item.withPow pow).checkShare share = (fresh.withPow pow).checkShare share

theorem unaltered_of_core (hfresh : other.Consistent) (h : item.core = other.core) :
    Unaltered other item := by
  have hconsistent := consistent_of_core h hfresh
  exact {
    midstate_eq := hconsistent.midstate_eq
    pad_eq := hconsistent.pad_eq
    target_eq := target_eq_of_core h
    bytes_eq := bytes_eq_of_core h
    referenceHash_eq := by
      intro nonce
      calc
        item.referenceHash nonce = (item.withPow .sha256d).powHash nonce :=
          referenceHash_of_consistent hconsistent nonce
        _ = (other.withPow .sha256d).powHash nonce := powHash_eq_of_core h .sha256d nonce
        _ = other.referenceHash nonce := (referenceHash_of_consistent hfresh nonce).symm
    powHash_eq := powHash_eq_of_core h
    checkShare_eq := checkShare_eq_of_core h }

/-- Parts make an item exactly if the midstate is that of the header, and it is the one made from the header
alone. -/
theorem ofParts_eq_ok_iff {header : Header} {midstate : Sha256.State} {target : Target}
    {cancel : CancelFlag} :
    ofParts header midstate target cancel = .ok item ↔
      header.midstate = midstate ∧ item = ofHeader header target cancel := by
  unfold ofParts
  split
  · rename_i heq
    rw [Except.ok.injEq]
    exact ⟨fun h ↦ ⟨heq, h.symm⟩, fun h ↦ h.2.symm⟩
  · rename_i hne
    constructor
    · intro h
      cases h
    · rintro ⟨heq, -⟩
      exact absurd heq hne

/-- An item that is made in either way is, with all its copies and whatever is done to them, what it was when it
was made. -/
theorem unaltered_of_steps (header : Header) (target : Target) (cancel : CancelFlag) :
    (∀ midstate item, ofParts header midstate target cancel = .ok item ↔
      header.midstate = midstate ∧ item = ofHeader header target cancel) ∧
    ∀ flags state, Relation.ReflTransGen Step ([ofHeader header target cancel], flags) state →
      ∀ item ∈ state.1, Unaltered (ofHeader header target cancel) item := by
  refine ⟨fun midstate item ↦ ofParts_eq_ok_iff, ?_⟩
  intro flags state hsteps item hmem
  have hcore := core_eq_of_steps hsteps item hmem
  exact unaltered_of_core (consistent_ofHeader header target cancel) hcore

/-- An item is copied, the copy is run over two nonces, and the item is cancelled. -/
theorem exists_unaltered_zeros :
    ∃ t other run, Routine.Trace ((Kernel.sha256d .reference).run
        (ofHeader ⟨Vector.replicate 80 0⟩ .max ⟨0⟩) ⟨3, 4, by decide⟩) t (other, run) ∧
      ∀ item ∈ [ofHeader ⟨Vector.replicate 80 0⟩ .max ⟨0⟩, other],
        Unaltered (ofHeader ⟨Vector.replicate 80 0⟩ .max ⟨0⟩) item := by
  obtain ⟨t, htrace, -⟩ := Kernel.exists_trace_runSteady (.sha256d .reference) false
    (ofHeader ⟨Vector.replicate 80 0⟩ .max ⟨0⟩) ⟨3, 4, by decide⟩
  generalize Kernel.runSteady _ _ _ _ = result at htrace
  obtain ⟨other, run⟩ := result
  refine ⟨t, other, run, htrace, ?_⟩
  generalize hfresh : ofHeader _ _ _ = fresh at htrace
  have hclone : Step ([fresh], .empty) ([fresh, fresh], .empty) :=
    .clone (List.mem_singleton_self fresh)
  have hrun : Step ([fresh, fresh], .empty) ([fresh, other], .empty) :=
    .operate (i := 1) rfl (.run htrace)
  have hcancel : Step ([fresh, other], .empty) ([fresh, other], FlagTable.empty.raise fresh.cancel) :=
    .operate (i := 0) rfl (.cancel fresh .empty)
  subst hfresh
  exact (unaltered_of_steps _ _ _).2 _ _ (.tail (.tail (.tail .refl hclone) hrun) hcancel)

end Hashwork.WorkItem
