import Hashwork.Algorithm.Basic
import Hashwork.Log

/-!
# Scans

A scan tries the nonces of a work item from where the last scan ended up to a ceiling, and offers every
accepted one to a sink.  It ends at the ceiling, or early: when the sink takes no more shares, or when
the item's cancel flag is seen raised.  Either way the item's next nonce is the one after the last that
was decided, so that nothing is lost or repeated when the scan is taken up again.

The cancel flag, the sink and the log are the surroundings of the scan, which is a routine.
-/

namespace Hashwork

namespace Scan

inductive Event where
  | readFlag
  | offer (share : Share)
  | note (line : Log.Line)

/-- The flag is raised or not, and the sink takes a share or refuses it. -/
abbrev Event.Answer : Event → Type
  | .readFlag => Bool
  | .offer _ => Bool
  | .note _ => Unit

/-- How a scan ended. -/
inductive Ending where
  | exhausted
  | cancelled
deriving DecidableEq, Repr

def Ending.label : Ending → String
  | .exhausted => "Exhausted"
  | .cancelled => "Cancelled"

structure Report where
  /-- The nonces that were passed.  Zero means that there was no progress. -/
  processed : Nat
  ending : Ending
  /-- The shares that the sink took. -/
  shares : Nat
deriving DecidableEq, Repr

def Report.idle : Report := ⟨0, .exhausted, 0⟩

end Scan

abbrev Scanning := Routine Scan.Event Scan.Event.Answer

namespace Scan

def note (level : Log.Level) (text : String) : Scanning Unit :=
  .ask (.note ⟨level, text⟩) .done

/-- Offers a share to the sink; the answer is whether it was taken. -/
def offer (share : Share) : Scanning Bool :=
  .ask (.offer share) .done

end Scan

/-- What scans: a selected algorithm and its kernel, either of which may be missing. -/
structure Scanner where
  algorithm : Option Algorithm
  kernel : Option Kernel

namespace Scanner

open Scan

/-- The scanner for an algorithm.  It has no kernel if the processor cannot run it. -/
def ofAlgorithm (processor : Processor) (algorithm : Algorithm) : Scanner :=
  ⟨some algorithm, algorithm.kernel? processor⟩

/-- A scanner without a kernel.  Its scans make no progress. -/
def unavailable : Scanner := ⟨none, none⟩

/-- The scanner for an algorithm, with a warning if it has no kernel. -/
def announce (processor : Processor) (algorithm : Algorithm) : Logging Scanner := do
  let scanner := ofAlgorithm processor algorithm
  if scanner.kernel.isNone then
    Log.note .warn ("Algorithm " ++ algorithm.name ++ " is not available on this CPU")
  return scanner

/-- The kernel for an item: scrypt has one of its own, which serves no other item. -/
def kernelFor (scanner : Scanner) (item : WorkItem) : Option Kernel :=
  match item.pow with
  | .scrypt => some .scrypt
  | pow => scanner.kernel.filter (·.pow == pow)

/-- Where a search ended. -/
structure Stop where
  item : WorkItem
  last : Word
  ending : Ending
  shares : Nat
  foundAny : Bool

/-- Offers a share that a kernel came up with, after it has been checked once more.  The answer is
`none` if the sink refused it, and otherwise the number of shares taken. -/
def submit (item : WorkItem) (share : Share) : Scanning (Option Nat) :=
  if item.checkShare share then do
    note .debug ("Found " ++ share.text)
    return if ← offer share then some 1 else none
  else do
    note .warn ("Kernel produced an invalid share (" ++ share.text ++ "), discarding")
    return some 0

/-- Searches from `nonce` to `max`, where `shares` have been taken so far. -/
def search (kernel : Kernel) (max : Word) (item : WorkItem) (shares : Nat) (foundAny : Bool)
    (nonce : Word) (h : nonce ≤ max) : Scanning Stop :=
  ((kernel.run item ⟨nonce, max, h⟩).embed (fun _ ↦ .readFlag) (fun _ raised ↦ raised)).bind
    fun (item, run) ↦
      if run.found then
        (submit item ⟨run.last, item.hash⟩).bind fun
          | none => .done ⟨item, run.last, .cancelled, shares, true⟩
          | some taken =>
            if hlast : run.last = max then
              .done ⟨item, run.last, .exhausted, shares + taken, true⟩
            else
              have below : run.last < max := UInt32.lt_of_le_of_ne run.le_last hlast
              .ask .readFlag fun raised ↦
                if raised then .done ⟨item, run.last, .cancelled, shares + taken, true⟩
                else
                  search kernel max item (shares + taken) true (run.last + 1)
                    (Word.add_one_le below)
      else
        .ask .readFlag fun raised ↦
          .done ⟨item, run.last, if raised then .cancelled else .exhausted, shares, foundAny⟩
termination_by max.toNat - nonce.toNat
decreasing_by exact Word.sub_add_one_lt run.first_le below

/-- Scans an item from its next nonce up to `ceiling`, which is not included. -/
def scan (scanner : Scanner) (item : WorkItem) (ceiling : Nat) : Scanning (WorkItem × Report) :=
  match scanner.kernelFor item with
  | none => do
    let selected :=
      match scanner.algorithm with
      | some algorithm => "Some(" ++ algorithm.label ++ ")"
      | none => "None"
    note .error ("No " ++ item.pow.label ++ " kernel is available (selected: " ++ selected ++
      "), skipping scan")
    return (item, .idle)
  | some kernel =>
    let first := item.nextNonce
    let ceiling := min ceiling UInt32.size
    if h : first < ceiling then
      have hle := Word.toUInt32_le_sub_one h (Nat.min_le_right ..)
      (search kernel (ceiling - 1).toUInt32 item 0 false first.toUInt32 hle).bind fun stop ↦
        let last := stop.last.toNat
        let processed := if !stop.foundAny && last == first then 0 else last - first + 1
        .done (stop.item.withNextNonce (last + 1), ⟨processed, stop.ending, stop.shares⟩)
    else .done (item, .idle)

end Scanner

end Hashwork
