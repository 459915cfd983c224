import Hashwork.Proofs.Scan.World

/-!
# Interrupted scans

An item is scanned piece by piece, by one scanner or by several, up to ceilings anywhere, while its flag
is raised and lowered.  As long as no sink refuses a share, none is lost and none comes twice: what has been
delivered is what one scan delivers that no one interrupts.
-/

namespace Hashwork

namespace Scan

/-- A sink that takes every share, and raises the flag when it pleases. -/
def Sink.accepting (raises : List (Share × Bool) → Share → Bool) : Sink :=
  fun offers share ↦ ⟨true, raises offers share⟩

/-- A sink that takes every share and never raises the flag. -/
def Sink.quiet : Sink := .accepting fun _ _ ↦ false

namespace World

variable {flag : CancelFlag} {sink : Sink} {world world' : World} {t : Transcript}

theorem taken_of_accepting (hsink : ∀ offers share, (sink offers share).taken = true)
    (h : Routine.Answered (answer flag sink) world t world') :
    ∀ offer ∈ offersIn t, offer.2 = true := by
  induction h with
  | nil world => exact fun _ hmem ↦ absurd hmem List.not_mem_nil
  | cons e _ ih =>
    cases e with
    | readFlag => exact ih
    | note line => exact ih
    | offer share =>
      intro offer hmem
      rcases List.mem_cons.mp hmem with rfl | hmem
      · exact hsink _ share
      · exact ih offer hmem

/-- A quiet sink leaves all flags as they are. -/
theorem flags_eq_of_quiet (h : Routine.Answered (answer flag .quiet) world t world') :
    world'.flags = world.flags := by
  induction h with
  | nil world => rfl
  | cons e _ ih =>
    cases e with
    | readFlag | note line | offer share => exact ih

/-- With a quiet sink a flag that is lowered stays lowered. -/
theorem not_raised_of_quiet (hlowered : world.flags.isRaised flag = false)
    (h : Routine.Answered (answer flag .quiet) world t world') : ⟨.readFlag, true⟩ ∉ t := by
  induction h with
  | nil world => exact List.not_mem_nil
  | @cons world world' e t _ ih =>
    intro hmem
    cases e with
    | readFlag =>
      rcases List.mem_cons.mp hmem with heq | hmem
      · have hraised : true = world.flags.isRaised flag := eq_of_heq (Sigma.mk.inj heq).2
        rw [hlowered] at hraised
        cases hraised
      · exact ih hlowered hmem
    | note line =>
      rcases List.mem_cons.mp hmem with heq | hmem
      · cases heq
      · exact ih hlowered hmem
    | offer share =>
      rcases List.mem_cons.mp hmem with heq | hmem
      · cases heq
      · exact ih hlowered hmem

end World

/-- What is done to an item: a scan with any scanner, up to any ceiling and into any sink that refuses no
share, or a change of its flag. -/
inductive Step where
  | scan (scanner : Scanner) (built : scanner.Built) (ceiling : Nat)
    (raises : List (Share × Bool) → Share → Bool)
  | cancel
  | reset

namespace Step

def apply (state : WorkItem × World) : Step → WorkItem × World
  | scan scanner _ ceiling raises =>
    let result := scanner.scanIn (.accepting raises) state.1 ceiling state.2
    (result.1.1, result.2)
  | cancel => (state.1, { state.2 with flags := state.2.flags.raise state.1.cancel })
  | reset => (state.1, { state.2 with flags := state.2.flags.lower state.1.cancel })

/-- One step after another. -/
def applyAll (state : WorkItem × World) (steps : List Step) : WorkItem × World :=
  steps.foldl apply state

end Step

/-- From one state to a later one exactly the accepted shares between the two next nonces have been
delivered. -/
structure Delivered (state state' : WorkItem × World) : Prop where
  template_eq : state'.1.template = state.1.template
  le : state.1.nextNonce ≤ state'.1.nextNonce
  within : state'.1.nextNonce = state.1.nextNonce ∨ state'.1.nextNonce ≤ UInt32.size
  offers_eq : state'.2.offers = state.2.offers ++
    (state.1.acceptedShares state.1.nextNonce state'.1.nextNonce).map fun share ↦ (share, true)

namespace Delivered

variable {state state' state'' : WorkItem × World}

theorem refl (state : WorkItem × World) : Delivered state state where
  template_eq := rfl
  le := Nat.le_refl _
  within := .inl rfl
  offers_eq := by simp

theorem trans (h : Delivered state state') (h' : Delivered state' state'') :
    Delivered state state'' where
  template_eq := h'.template_eq.trans h.template_eq
  le := Nat.le_trans h.le h'.le
  within := by
    rcases h'.within with heq | hle
    · rw [heq]
      exact h.within
    · exact .inr hle
  offers_eq := by
    have happend := state.1.acceptedShares_append h.le h'.le
    have htemplate := WorkItem.acceptedShares_eq_of_template h.template_eq
    rw [h'.offers_eq, h.offers_eq, htemplate, List.append_assoc, ← List.map_append, happend]

end Delivered

/-- A list of offers that were all taken. -/
theorem eq_map_of_taken {offers : List (Share × Bool)} (h : ∀ offer ∈ offers, offer.2 = true) :
    offers = (offers.map (·.1)).map fun share ↦ (share, true) := by
  rw [List.map_map]
  exact (List.map_id' offers).symm.trans
    (List.map_congr_left fun offer hmem ↦ Prod.ext rfl (h offer hmem))

variable {item : WorkItem} {world : World}

/-- One scan into a sink that takes every share. -/
theorem delivered_scanIn (hconsistent : item.Consistent) {scanner : Scanner} (hbuilt : scanner.Built)
    (sink : Sink) (hsink : ∀ offers share, (sink offers share).taken = true) (ceiling : Nat)
    (world : World) :
    Delivered (item, world)
      ((scanner.scanIn sink item ceiling world).1.1, (scanner.scanIn sink item ceiling world).2) := by
  obtain ⟨t, htrace, hanswered⟩ := scanner.exists_trace_scanIn sink item ceiling world
  obtain ⟨hoffers, -⟩ := World.offers_of_answered hanswered
  have htemplate := Scanner.template_scan htrace
  by_cases hidle : scanner.kernelFor item = none ∨ min ceiling UInt32.size ≤ item.nextNonce
  · obtain ⟨hitem, -, hnone, -⟩ := Scanner.trace_scan_of_idle hidle htrace
    have hnext := congrArg WorkItem.nextNonce hitem
    exact {
      template_eq := htemplate
      le := Nat.le_of_eq hnext.symm
      within := .inl hnext
      offers_eq := by
        dsimp only
        rw [hoffers, hnone, hnext, WorkItem.acceptedShares_self]
        rfl }
  · obtain ⟨hkernel, hlt⟩ := not_or.mp hidle
    obtain ⟨kernel, hkernel⟩ := Option.ne_none_iff_exists'.mp hkernel
    have hscanned := Scanner.scanned_scan hkernel (hbuilt.exact hkernel) hconsistent
      (Nat.lt_of_not_le hlt) htrace
    exact {
      template_eq := htemplate
      le := Nat.le_of_lt hscanned.lt_finish
      within := .inr (Nat.le_trans hscanned.finish_le (Nat.min_le_right ..))
      offers_eq := by
        dsimp only
        rw [hoffers, ← hscanned.offers_eq,
          ← eq_map_of_taken (World.taken_of_accepting hsink hanswered)] }

theorem delivered_apply {state : WorkItem × World} (hconsistent : state.1.Consistent) (step : Step) :
    Delivered state (step.apply state) := by
  cases step with
  | scan scanner built ceiling raises =>
    exact delivered_scanIn hconsistent built (.accepting raises) (fun _ _ ↦ rfl) ceiling state.2
  | cancel => exact { Delivered.refl state with }
  | reset => exact { Delivered.refl state with }

theorem delivered_applyAll (state : WorkItem × World) (hconsistent : state.1.Consistent)
    (steps : List Step) : Delivered state (Step.applyAll state steps) := by
  induction steps generalizing state with
  | nil => exact .refl state
  | cons step steps ih =>
    have hstep := delivered_apply hconsistent step
    have hnext := (WorkItem.consistent_iff_of_template hstep.template_eq).mpr hconsistent
    exact hstep.trans (ih _ hnext)

/-- A scan that no one interrupts reaches its ceiling. -/
theorem nextNonce_scanIn_quiet (hconsistent : item.Consistent) {scanner : Scanner}
    (hbuilt : scanner.Built) (hkernel : (scanner.kernelFor item).isSome) {ceiling : Nat}
    (hlt : item.nextNonce < ceiling) (hceiling : ceiling ≤ UInt32.size)
    (hlowered : world.flags.isRaised item.cancel = false) :
    (scanner.scanIn .quiet item ceiling world).1.1.nextNonce = ceiling := by
  obtain ⟨kernel, hkernel⟩ := Option.isSome_iff_exists.mp hkernel
  obtain ⟨t, htrace, hanswered⟩ := scanner.exists_trace_scanIn .quiet item ceiling world
  have hmin : min ceiling UInt32.size = ceiling := Nat.min_eq_left hceiling
  have hscanned := Scanner.scanned_scan hkernel (hbuilt.exact hkernel) hconsistent
    (by rwa [hmin]) htrace
  rw [hmin] at hscanned
  cases hending : (scanner.scanIn .quiet item ceiling world).1.2.ending with
  | exhausted =>
    rcases hscanned.exhausted hending with hfinish | ⟨t', rfl⟩
    · exact hfinish
    · cases World.eq_of_answered_looks hanswered
  | cancelled =>
    rcases hscanned.cancelled hending with ⟨offer, hmem, hnot⟩ | hraised
    · rw [World.taken_of_accepting (fun _ _ ↦ rfl) hanswered offer hmem] at hnot
      cases hnot
    · exact absurd hraised (World.not_raised_of_quiet hlowered hanswered)

/-- A scan up to where the item is already does not move it. -/
theorem nextNonce_scanIn_of_le (scanner : Scanner) (sink : Sink) {ceiling : Nat}
    (hle : ceiling ≤ item.nextNonce) (world : World) :
    (scanner.scanIn sink item ceiling world).1.1.nextNonce = item.nextNonce := by
  obtain ⟨t, htrace, -⟩ := scanner.exists_trace_scanIn sink item ceiling world
  obtain ⟨hitem, -⟩ := Scanner.trace_scan_of_idle (.inr (Nat.le_trans (Nat.min_le_left ..) hle)) htrace
  rw [hitem]

/-- A quiet scan ends where any scans of the item have ended. -/
theorem nextNonce_scanIn_of_delivered (hconsistent : item.Consistent) {final : WorkItem × World}
    (hdelivered : Delivered (item, world) final) {scanner : Scanner} (hbuilt : scanner.Built)
    (hkernel : (scanner.kernelFor item).isSome) {other : World}
    (hlowered : other.flags.isRaised item.cancel = false) :
    (scanner.scanIn .quiet item final.1.nextNonce other).1.1.nextNonce = final.1.nextNonce := by
  rcases Nat.lt_or_eq_of_le hdelivered.le with hlt | heq
  · rcases hdelivered.within with hsame | hceiling
    · exact absurd hlt (Nat.not_lt.mpr (Nat.le_of_eq hsame))
    · exact nextNonce_scanIn_quiet hconsistent hbuilt hkernel hlt hceiling hlowered
  · rw [← heq]
    exact nextNonce_scanIn_of_le scanner .quiet (Nat.le_refl _) other

/-- What steps delivered that led from an item to `final`. -/
structure Delivery (item : WorkItem) (world : World) (final : WorkItem × World)
    (shares : List Share) : Prop where
  offers_eq : final.2.offers = world.offers ++ shares.map fun share ↦ (share, true)
  shares_eq : shares = item.acceptedShares item.nextNonce final.1.nextNonce
  ordered : shares.Pairwise fun earlier later ↦ earlier.nonce < later.nonce
  /-- One scan with any kernel for the item, if no one interrupts it, delivers the same. -/
  uninterrupted (scanner : Scanner) (built : scanner.Built)
    (kernel : (scanner.kernelFor item).isSome) (other : World)
    (lowered : other.flags.isRaised item.cancel = false) :
    (scanner.scanIn .quiet item final.1.nextNonce other).1.1.nextNonce = final.1.nextNonce ∧
      (scanner.scanIn .quiet item final.1.nextNonce other).2.offers =
        other.offers ++ shares.map fun share ↦ (share, true)

/-- However the scans of an item are cut up and interrupted, its next nonce never goes back, and each accepted
share that it passes is delivered once. -/
theorem steps_deliver (hreachable : item.Reachable) (world : World) (steps : List Step) :
    (∀ earlier later, steps = earlier ++ later →
      (Step.applyAll (item, world) earlier).1.nextNonce ≤
        (Step.applyAll (item, world) steps).1.nextNonce) ∧
      ∃ shares, Delivery item world (Step.applyAll (item, world) steps) shares := by
  have hdelivered := delivered_applyAll (item, world) hreachable.consistent steps
  constructor
  · rintro earlier later rfl
    have hearlier := delivered_applyAll (item, world) hreachable.consistent earlier
    have hconsistent :=
      (WorkItem.consistent_iff_of_template hearlier.template_eq).mpr hreachable.consistent
    have hlater := delivered_applyAll _ hconsistent later
    unfold Step.applyAll at hlater ⊢
    rw [List.foldl_append]
    exact hlater.le
  · refine ⟨_, {
      offers_eq := hdelivered.offers_eq
      shares_eq := rfl
      ordered := ?_
      uninterrupted := ?_ }⟩
    · rcases hdelivered.within with heq | hle
      · rw [heq, WorkItem.acceptedShares_self]
        exact .nil
      · exact WorkItem.acceptedShares_pairwise hle
    · intro scanner hbuilt hkernel other hlowered
      have hwhole := delivered_scanIn hreachable.consistent hbuilt .quiet (fun _ _ ↦ rfl)
        (Step.applyAll (item, world) steps).1.nextNonce other
      have hreached := nextNonce_scanIn_of_delivered hreachable.consistent hdelivered hbuilt hkernel
        hlowered
      refine ⟨hreached, ?_⟩
      rw [hwhole.offers_eq]
      dsimp only
      rw [hreached]

/-- Two scans with different kernels, the first of them ended by its sink. -/
theorem steps_deliver_zeros :
    ∃ shares,
      Delivery (.ofHeader ⟨Vector.replicate 80 0⟩ .max ⟨0⟩) ⟨.empty, [], []⟩
        (Step.applyAll (.ofHeader ⟨Vector.replicate 80 0⟩ .max ⟨0⟩, ⟨.empty, [], []⟩)
          [.scan (.ofAlgorithm ⟨fun _ ↦ true, 1⟩ .c) (.ofAlgorithm _ _) 5 fun _ _ ↦ true, .reset,
            .scan (.ofAlgorithm ⟨fun _ ↦ true, 1⟩ .fourWay) (.ofAlgorithm _ _) 3 fun _ _ ↦ false])
        shares :=
  (steps_deliver (.ofHeader _ _ _) _ _).2

/-! ## Without interruptions -/

/-- A scan that no one interrupts, with a scanner that has a kernel for the item. -/
structure QuietScan (item : WorkItem) where
  scanner : Scanner
  built : scanner.Built
  kernel : (scanner.kernelFor item).isSome
  ceiling : Nat
  le : ceiling ≤ UInt32.size

def QuietScan.step (scan : QuietScan item) : Step :=
  .scan scan.scanner scan.built scan.ceiling fun _ _ ↦ false

/-- What is so of an item and its world before each quiet scan. -/
structure Undisturbed (item : WorkItem) (state : WorkItem × World) : Prop where
  template_eq : state.1.template = item.template
  lowered : state.2.flags.isRaised item.cancel = false

theorem Undisturbed.apply {state : WorkItem × World} (h : Undisturbed item state)
    (hconsistent : item.Consistent) (scan : QuietScan item) :
    Undisturbed item (scan.step.apply state) ∧
      (scan.step.apply state).1.nextNonce = max state.1.nextNonce scan.ceiling := by
  have hstate := (WorkItem.consistent_iff_of_template h.template_eq).mpr hconsistent
  have hcancel := WorkItem.cancel_eq_of_template h.template_eq
  refine ⟨⟨(delivered_apply hstate scan.step).template_eq.trans h.template_eq, ?_⟩, ?_⟩
  · obtain ⟨t, -, hanswered⟩ :=
      scan.scanner.exists_trace_scanIn .quiet state.1 scan.ceiling state.2
    have hflags : (scan.step.apply state).2.flags = state.2.flags :=
      World.flags_eq_of_quiet hanswered
    rw [hflags]
    exact h.lowered
  · rcases Nat.lt_or_ge state.1.nextNonce scan.ceiling with hlt | hge
    · have hkernel := (Scanner.kernelFor_eq_of_template h.template_eq scan.scanner).symm ▸ scan.kernel
      rw [Nat.max_eq_right (Nat.le_of_lt hlt)]
      exact nextNonce_scanIn_quiet hstate scan.built hkernel hlt scan.le (hcancel ▸ h.lowered)
    · rw [Nat.max_eq_left hge]
      exact nextNonce_scanIn_of_le scan.scanner .quiet hge state.2

/-- Scans that no one interrupts get as far as the highest of their ceilings, and deliver every accepted share
up to there. -/
theorem quiet_applyAll (hconsistent : item.Consistent) (hlowered : world.flags.isRaised item.cancel = false)
    (scans : List (QuietScan item)) :
    (Step.applyAll (item, world) (scans.map (·.step))).1.nextNonce =
        scans.foldl (fun reached scan ↦ max reached scan.ceiling) item.nextNonce ∧
      (Step.applyAll (item, world) (scans.map (·.step))).2.offers =
        world.offers ++ (item.acceptedShares item.nextNonce
          (scans.foldl (fun reached scan ↦ max reached scan.ceiling) item.nextNonce)).map
            fun share ↦ (share, true) := by
  have hreached (state : WorkItem × World) (h : Undisturbed item state) :
      (Step.applyAll state (scans.map (·.step))).1.nextNonce =
        scans.foldl (fun reached scan ↦ max reached scan.ceiling) state.1.nextNonce := by
    induction scans generalizing state with
    | nil => rfl
    | cons scan scans ih =>
      obtain ⟨hnext, heq⟩ := h.apply hconsistent scan
      rw [List.foldl_cons, ← heq, ← ih _ hnext]
      rfl
  have hnextNonce := hreached (item, world) ⟨rfl, hlowered⟩
  have hdelivered := delivered_applyAll (item, world) hconsistent (scans.map (·.step))
  refine ⟨hnextNonce, ?_⟩
  rw [hdelivered.offers_eq, hnextNonce]

end Scan

end Hashwork
