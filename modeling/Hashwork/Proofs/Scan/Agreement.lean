import Hashwork.Proofs.Kernel.Steady
import Hashwork.Proofs.Scan.World

/-!
# The kernel of a scan cannot be told

Nobody but the sink raises the flag, and a scan looks at it after each share, so no run begins while it is
raised.  Two exact kernels then make the same runs, and the scans lead to the same item, the same report and
the same world.
-/

namespace Hashwork

namespace Scanner

open Scan

variable {flag : CancelFlag} {sink : Sink} {world : World} {item : WorkItem}

/-- A run that begins while the flag is lowered leaves the world as it is, and sees no other flag. -/
theorem run_embed_of_lowered {α : Type} (hlowered : world.flags.isRaised flag = false)
    (r : Polling α) :
    ((r.embed (fun _ ↦ .readFlag) fun _ raised ↦ raised).run (World.answer flag sink)).run world =
      (r.run (m := Id) fun _ ↦ false, world) := by
  induction r with
  | done a => rfl
  | ask e next ih =>
    calc
      _ = (((next (world.flags.isRaised flag)).embed (fun _ ↦ .readFlag) fun _ raised ↦ raised).run
            (World.answer flag sink)).run world := rfl
      _ = ((next false).run (m := Id) fun _ ↦ false, world) := by
        rw [hlowered]
        exact ih false

/-- One search and another are the same in a world, whatever their kernels. -/
theorem run_search_eq {kernel kernel' : Kernel} (hexact : kernel.Exact) (hexact' : kernel'.Exact)
    (hpow : item.pow = kernel.pow) (hpow' : item.pow = kernel'.pow) (hconsistent : item.Consistent)
    (hlowered : world.flags.isRaised flag = false) {max nonce : Word} (h : nonce ≤ max) (shares : Nat)
    (foundAny : Bool) :
    ((search kernel max item shares foundAny nonce h).run (World.answer flag sink)).run world =
      ((search kernel' max item shares foundAny nonce h).run (World.answer flag sink)).run world := by
  induction hleft : max.toNat - nonce.toNat using Nat.strong_induction_on
    generalizing item world shares foundAny nonce with
  | h left ih =>
    rw [search, search, Routine.run_bind, Routine.run_bind, StateT.run_bind, StateT.run_bind,
      run_embed_of_lowered hlowered, run_embed_of_lowered hlowered]
    have hrun : kernel.runSteady false item ⟨nonce, max, h⟩ =
        kernel'.runSteady false item ⟨nonce, max, h⟩ :=
      Kernel.runSteady_eq hexact hexact' hpow hpow' hconsistent
    have htemplate := kernel.template_runSteady false item ⟨nonce, max, h⟩
    unfold Kernel.runSteady at hrun htemplate
    rw [← hrun]
    generalize (kernel.run item ⟨nonce, max, h⟩).run (m := Id) (fun _ ↦ false) = result at htemplate ⊢
    obtain ⟨next, run⟩ := result
    change ((ite _ _ _ : Scanning Stop).run (World.answer flag sink)).run world =
      ((ite _ _ _ : Scanning Stop).run (World.answer flag sink)).run world
    dsimp only
    split
    · rw [Routine.run_bind, Routine.run_bind, StateT.run_bind, StateT.run_bind]
      generalize ((submit next ⟨run.last, next.hash⟩).run (World.answer flag sink)).run world = submitted
      obtain ⟨_ | taken, world'⟩ := submitted
      · rfl
      · change ((dite _ _ _ : Scanning Stop).run (World.answer flag sink)).run world' =
          ((dite _ _ _ : Scanning Stop).run (World.answer flag sink)).run world'
        split
        · rfl
        · rename_i hlast
          have hbelow := UInt32.lt_of_le_of_ne run.le_last hlast
          have hdecreases := Word.sub_add_one_lt run.first_le hbelow
          change ((ite (world'.flags.isRaised flag = true) _ _ : Scanning Stop).run
              (World.answer flag sink)).run world' =
            ((ite (world'.flags.isRaised flag = true) _ _ : Scanning Stop).run
              (World.answer flag sink)).run world'
          split
          · rfl
          · rename_i hlowered'
            exact ih _ (hleft ▸ hdecreases) ((WorkItem.pow_eq_of_template htemplate).trans hpow)
              ((WorkItem.pow_eq_of_template htemplate).trans hpow')
              ((WorkItem.consistent_iff_of_template htemplate).mpr hconsistent)
              (Bool.eq_false_iff.mpr hlowered') _ _ _ rfl
    · rfl

/-- Scans of an item with a kernel each are the same in a world in which nobody has raised its flag. -/
theorem scanIn_eq_of_exact {scanner scanner' : Scanner} {kernel kernel' : Kernel}
    (hkernel : scanner.kernelFor item = some kernel) (hkernel' : scanner'.kernelFor item = some kernel')
    (hexact : kernel.Exact) (hexact' : kernel'.Exact) (hconsistent : item.Consistent)
    (hlowered : world.flags.isRaised item.cancel = false) (sink : Sink) (ceiling : Nat) :
    scanner.scanIn sink item ceiling world = scanner'.scanIn sink item ceiling world := by
  unfold scanIn scan
  simp only [hkernel, hkernel']
  split
  · rename_i hlt
    rw [Routine.run_bind, Routine.run_bind, StateT.run_bind, StateT.run_bind,
      run_search_eq hexact hexact' (pow_of_kernelFor hkernel) (pow_of_kernelFor hkernel') hconsistent
        hlowered]
  · rfl

/-- On every processor the scanner for a candidate serves every SHA-256d item. -/
theorem exists_kernelFor_of_mem_candidates {processor : Processor} {algorithm : Algorithm}
    (hmem : algorithm ∈ processor.candidates) (hpow : item.pow = .sha256d) :
    ∃ kernel, (ofAlgorithm processor algorithm).kernelFor item = some kernel := by
  obtain ⟨havailable, hsha⟩ := List.mem_filter.mp hmem
  obtain ⟨kernel, hkernel⟩ := Option.isSome_iff_exists.mp (List.mem_filter.mp havailable).2
  have hserves : (kernel.pow == ProofOfWork.sha256d) = true := by
    rw [Algorithm.pow_of_kernel? hkernel hsha]
    rfl
  refine ⟨kernel, ?_⟩
  simp only [kernelFor, hpow]
  exact Option.filter_eq_some_iff.mpr ⟨hkernel, hserves⟩

/-- There are ten algorithms with kernels for SHA-256d items, and which of them scans such an item makes no
difference: the item, the report and the world with all that was offered are the same. -/
theorem scanIn_eq_of_mem_candidates :
    (∀ processor : Processor, (∀ feature, processor.has feature = true) →
      processor.candidates =
        [.c, .fourWay, .via, .cryptoPp, .sse2, .sse4, .avx2, .shaNi, .neon, .altivec]) ∧
    ∀ {processor processor' : Processor}, ∀ algorithm ∈ processor.candidates,
      ∀ algorithm' ∈ processor'.candidates, ∀ item : WorkItem, item.Reachable → item.pow = .sha256d →
        ∀ world : World, world.flags.isRaised item.cancel = false → ∀ (sink : Sink) (ceiling : Nat),
          (ofAlgorithm processor algorithm).scanIn sink item ceiling world =
            (ofAlgorithm processor' algorithm').scanIn sink item ceiling world := by
  constructor
  · rintro ⟨has, threads⟩ hall
    obtain rfl : has = fun _ ↦ true := funext hall
    rfl
  · intro processor processor' algorithm hmem algorithm' hmem' item hreachable hpow world hlowered sink
      ceiling
    obtain ⟨kernel, hkernel⟩ := exists_kernelFor_of_mem_candidates hmem hpow
    obtain ⟨kernel', hkernel'⟩ := exists_kernelFor_of_mem_candidates hmem' hpow
    exact scanIn_eq_of_exact hkernel hkernel' ((Built.ofAlgorithm processor algorithm).exact hkernel)
      ((Built.ofAlgorithm processor' algorithm').exact hkernel') hreachable.consistent hlowered sink
      ceiling

/-- Batches of one nonce and of thirty-two, where the sink raises the flag with the second share. -/
theorem scanIn_reference_eq_altivec_zeros :
    (ofAlgorithm ⟨fun _ ↦ false, 1⟩ .c).scanIn (fun offers _ ↦ ⟨true, !offers.isEmpty⟩)
        (.ofHeader ⟨Vector.replicate 80 0⟩ .max ⟨0⟩) 40 ⟨.empty, [], []⟩ =
      (ofAlgorithm ⟨fun _ ↦ true, 1⟩ .altivec).scanIn (fun offers _ ↦ ⟨true, !offers.isEmpty⟩)
        (.ofHeader ⟨Vector.replicate 80 0⟩ .max ⟨0⟩) 40 ⟨.empty, [], []⟩ :=
  scanIn_eq_of_mem_candidates.2 .c (by decide) .altivec (by decide) _ (.ofHeader _ _ _) rfl _ (by decide)
    _ _

end Scanner

end Hashwork
