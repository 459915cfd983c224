import Hashwork.Proofs.Kernel.Run

/-!
# Runs under a steady flag

While the flag stays lowered a run ends at the first accepted nonce or at the end of its range.  So it does
not depend on the batches, and every exact kernel makes the same one.
-/

namespace Hashwork.Kernel

section Steady

variable {lanes lanes' : Nat} {item other other' : WorkItem} {past : Digest} {first max : Nat}
  {answers answers' : List Bool} {found found' : Bool} {last last' : Word}

/-- A run passes over no nonce at which another would end. -/
theorem Ran.last_le (h : Ran lanes item past first max answers other found last)
    (h' : Ran lanes' item past first max answers' other' found' last')
    (hlowered : true ∉ answers') (hmax : last.toNat ≤ max) : last.toNat ≤ last'.toNat := by
  by_contra hnot
  have hlt : last'.toNat < last.toNat := Nat.lt_of_not_le hnot
  cases found' with
  | true =>
    have hrejected := h.rejected last'.toNat h'.first_le hlt
    rw [Nat.toUInt32_eq, UInt32.ofNat_toNat, ← h'.found_eq] at hrejected
    cases hrejected
  | false =>
    have hend : last'.toNat = max :=
      h'.finished (fun hlast ↦ hlowered (List.mem_of_getLast? hlast)) rfl
    omega

/-- Where the flag is not seen raised, a run does not depend on the size of its batches. -/
theorem Ran.unique (h : Ran lanes item past first max answers other found last)
    (h' : Ran lanes' item past first max answers' other' found' last')
    (hlowered : true ∉ answers) (hlowered' : true ∉ answers') (hmax : last.toNat ≤ max)
    (hmax' : last'.toNat ≤ max) : other = other' ∧ found = found' ∧ last = last' := by
  obtain rfl : last = last' := UInt32.toNat_inj.mp
    (Nat.le_antisymm (h.last_le h' hlowered' hmax) (h'.last_le h hlowered hmax'))
  exact ⟨h.item_eq.trans h'.item_eq.symm, h.found_eq.trans h'.found_eq.symm, rfl⟩

end Steady

variable {kernel kernel' : Kernel} {item : WorkItem} {range : NonceRange}

theorem exists_trace_runSteady (kernel : Kernel) (cancelled : Bool) (item : WorkItem)
    (range : NonceRange) :
    ∃ t, Routine.Trace (kernel.run item range) t (kernel.runSteady cancelled item range) ∧
      ∀ exchange ∈ t, exchange.2 = cancelled :=
  Routine.exists_trace_run_answer _ _

theorem template_runSteady (kernel : Kernel) (cancelled : Bool) (item : WorkItem)
    (range : NonceRange) :
    (kernel.runSteady cancelled item range).1.template = item.template := by
  obtain ⟨t, htrace, -⟩ := exists_trace_runSteady kernel cancelled item range
  exact template_run htrace

/-- Two runs of exact kernels that never see the flag raised are the same. -/
theorem run_eq_of_lowered {other other' : WorkItem} {run run' : Run range}
    {t t' : List (Routine.Exchange fun _ : Unit ↦ Bool)} (hexact : kernel.Exact)
    (hexact' : kernel'.Exact) (hpow : item.pow = kernel.pow) (hpow' : item.pow = kernel'.pow)
    (hconsistent : item.Consistent) (htrace : Routine.Trace (kernel.run item range) t (other, run))
    (htrace' : Routine.Trace (kernel'.run item range) t' (other', run'))
    (hlowered : ∀ exchange ∈ t, exchange.2 = false)
    (hlowered' : ∀ exchange ∈ t', exchange.2 = false) : (other, run) = (other', run') := by
  have hnever {t : List (Routine.Exchange fun _ : Unit ↦ Bool)}
      (h : ∀ exchange ∈ t, exchange.2 = false) : true ∉ flagAnswers t := by
    intro hmem
    obtain ⟨exchange, hmem, hraised⟩ := List.mem_map.mp hmem
    rw [h exchange hmem] at hraised
    cases hraised
  obtain ⟨hitem, hfound, hlast⟩ := (ran_run hexact hpow hconsistent htrace).unique
    (ran_run hexact' hpow' hconsistent htrace') (hnever hlowered) (hnever hlowered') run.le_last
    run'.le_last
  obtain ⟨found, last, _, _⟩ := run
  obtain ⟨found', last', _, _⟩ := run'
  dsimp only at hfound hlast
  subst hitem hfound hlast
  rfl

/-- Exact kernels make the same run while the flag is lowered. -/
theorem runSteady_eq (hexact : kernel.Exact) (hexact' : kernel'.Exact) (hpow : item.pow = kernel.pow)
    (hpow' : item.pow = kernel'.pow) (hconsistent : item.Consistent) :
    kernel.runSteady false item range = kernel'.runSteady false item range := by
  obtain ⟨t, htrace, hlowered⟩ := exists_trace_runSteady kernel false item range
  obtain ⟨t', htrace', hlowered'⟩ := exists_trace_runSteady kernel' false item range
  exact run_eq_of_lowered hexact hexact' hpow hpow' hconsistent htrace htrace' hlowered hlowered'

end Hashwork.Kernel
