import Hashwork.Proofs.Scan.Overflow
import Hashwork.Proofs.Work.Reachable

/-!
# Scans in a world of their own

A world is what a scan meets: flags, a sink, which remembers what it has been offered, and a log.  Nobody but
the sink raises the item's flag, and nobody lowers it.  Then a scan that ends as exhausted has been through
all nonces below its ceiling.
-/

namespace Hashwork

namespace Scan

/-- What a sink does with a share: it takes it or refuses it, and it may raise the item's flag. -/
structure Reply where
  taken : Bool
  raises : Bool

/-- A sink decides by the share and by all that it has been offered before. -/
abbrev Sink := List (Share × Bool) → Share → Reply

structure World where
  flags : FlagTable
  /-- The shares offered so far, each with whether it was taken. -/
  offers : List (Share × Bool)
  lines : List Log.Line

namespace World

/-- How a world answers a scan of an item with this flag. -/
def answer (flag : CancelFlag) (sink : Sink) : (e : Event) → StateM World e.Answer
  | .readFlag => do return (← get).flags.isRaised flag
  | .offer share => do
    let world ← get
    let reply := sink world.offers share
    set { world with
      flags := if reply.raises then world.flags.raise flag else world.flags
      offers := world.offers ++ [(share, reply.taken)] }
    return reply.taken
  | .note line => modify fun world ↦ { world with lines := world.lines ++ [line] }

variable {flag : CancelFlag} {sink : Sink} {world world' : World} {t : Transcript}

theorem offers_of_answered (h : Routine.Answered (answer flag sink) world t world') :
    world'.offers = world.offers ++ offersIn t ∧ world'.lines = world.lines ++ linesIn t := by
  induction h with
  | nil world => simp [offersIn, linesIn]
  | cons e _ ih =>
    cases e with
    | readFlag => exact ih
    | offer share =>
      obtain ⟨hoffers, hlines⟩ := ih
      refine ⟨hoffers.trans ?_, hlines⟩
      exact List.append_assoc _ _ _
    | note line =>
      obtain ⟨hoffers, hlines⟩ := ih
      refine ⟨hoffers, hlines.trans ?_⟩
      exact List.append_assoc _ _ _

/-- Two looks in a row see the same. -/
theorem eq_of_answered_looks {a b : Bool}
    (h : Routine.Answered (answer flag sink) world (t ++ looks [a, b]) world') : a = b := by
  induction t generalizing world with
  | nil =>
    obtain ⟨ha, hnext⟩ := Routine.answered_cons _ h
    obtain ⟨hb, -⟩ := Routine.answered_cons _ hnext
    rw [ha, hb]
    rfl
  | cons exchange t ih => exact ih (Routine.answered_cons _ h).2

end World

end Scan

namespace Scanner

open Scan

/-- A scan in a world: what comes out of it, and the world afterwards. -/
def scanIn (scanner : Scanner) (sink : Sink) (item : WorkItem) (ceiling : Nat) (world : World) :
    (WorkItem × Report) × World :=
  ((scanner.scan item ceiling).run (World.answer item.cancel sink)).run world

variable {scanner : Scanner} {item : WorkItem} {ceiling : Nat}

theorem exists_trace_scanIn (scanner : Scanner) (sink : Sink) (item : WorkItem) (ceiling : Nat)
    (world : World) :
    ∃ t, Routine.Trace (scanner.scan item ceiling) t (scanner.scanIn sink item ceiling world).1 ∧
      Routine.Answered (World.answer item.cancel sink) world t
        (scanner.scanIn sink item ceiling world).2 :=
  Routine.exists_trace_run _ _ _

/-- What one scan of `item` did, if the last nonce it decided is `last` and these are the shares it offered,
each with whether it was taken. -/
structure Outcome (item : WorkItem) (ceiling : Nat) (world : World)
    (result : (WorkItem × Report) × World) (last : Nat) (offers : List (Share × Bool)) : Prop where
  nextNonce_eq : result.1.1.nextNonce = last + 1
  first_le : item.nextNonce ≤ last
  last_le : last ≤ min ceiling UInt32.size - 1
  offers_eq : result.2.offers = world.offers ++ offers
  /-- The shares are the accepted nonces that were passed, in order and each with its hash. -/
  shares_eq : offers.map (·.1) = item.acceptedShares item.nextNonce (last + 1)
  ordered : (offers.map (·.1)).Pairwise fun earlier later ↦ earlier.nonce < later.nonce
  /-- Nothing is logged but these shares, so none failed its check. -/
  lines_eq : result.2.lines = world.lines ++ offers.map fun offer ↦ foundLine offer.1
  taken_eq : result.1.2.shares = offers.countP (·.2)
  early : ∀ offer ∈ offers.dropLast, offer.2 = true
  refused : ∀ offer ∈ offers, offer.2 = false →
    result.1.2.ending = .cancelled ∧ offer.1.nonce.toNat = last
  exhausted : result.1.2.ending = .exhausted → last = min ceiling UInt32.size - 1

/-- Every scan does this that has a kernel for its item and a nonce below its ceiling.  None of its
arithmetic overflows. -/
theorem scan_outcome (hreachable : item.Reachable) (hbuilt : scanner.Built)
    (hkernel : (scanner.kernelFor item).isSome) (hlt : item.nextNonce < min ceiling UInt32.size)
    (sink : Sink) (world : World) :
    (scanner.guardedScan item ceiling =
      (scanner.scan item ceiling).bind fun result ↦ .done (some result)) ∧
      ∃ last offers,
        Outcome item ceiling world (scanner.scanIn sink item ceiling world) last offers := by
  refine ⟨guardedScan_eq scanner item ceiling, ?_⟩
  obtain ⟨kernel, hkernel⟩ := Option.isSome_iff_exists.mp hkernel
  obtain ⟨t, htrace, hanswered⟩ := exists_trace_scanIn scanner sink item ceiling world
  have hscanned := scanned_scan hkernel (hbuilt.exact hkernel) hreachable.consistent hlt htrace
  obtain ⟨hoffers, hlines⟩ := World.offers_of_answered hanswered
  have hpassed := hscanned.lt_finish
  have hceiling := hscanned.finish_le
  obtain ⟨last, hlast⟩ := Nat.exists_eq_succ_of_ne_zero (Nat.ne_zero_of_lt hpassed)
  refine ⟨last, offersIn t, ?_⟩
  exact {
    nextNonce_eq := hlast
    first_le := by omega
    last_le := by omega
    offers_eq := hoffers
    shares_eq := by rw [hscanned.offers_eq, hlast]
    ordered := by
      rw [hscanned.offers_eq]
      exact WorkItem.acceptedShares_pairwise (Nat.le_trans hceiling (Nat.min_le_right ..))
    lines_eq := by
      rw [hlines, hscanned.lines_eq, ← hscanned.offers_eq, List.map_map]
      rfl
    taken_eq := hscanned.shares_eq
    early := hscanned.early
    refused := by
      intro offer hmem hnot
      obtain ⟨hending, hnonce⟩ := hscanned.refused offer hmem hnot
      exact ⟨hending, by omega⟩
    exhausted := by
      intro hending
      rcases hscanned.exhausted hending with hfinish | ⟨t', rfl⟩
      · omega
      · cases World.eq_of_answered_looks hanswered }

/-- Three nonces that are all accepted, and a sink that takes one share only. -/
theorem scan_outcome_zeros :
    ∃ last offers,
      Outcome (.ofHeader ⟨Vector.replicate 80 0⟩ .max ⟨0⟩) 3 ⟨.empty, [], []⟩
        ((ofAlgorithm ⟨fun _ ↦ false, 1⟩ .c).scanIn (fun offers _ ↦ ⟨offers.isEmpty, false⟩)
          (.ofHeader ⟨Vector.replicate 80 0⟩ .max ⟨0⟩) 3 ⟨.empty, [], []⟩) last offers :=
  (scan_outcome (.ofHeader _ _ _) (.ofAlgorithm _ _) rfl (by decide) _ _).2

end Scanner

end Hashwork
