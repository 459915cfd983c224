import Hashwork.Scan.Basic

/-!
# Workers

The nonces are dealt out to the workers in ranges of equal length, of which the last takes the rest.  A
worker scans its range piece by piece.  Before each piece it looks at the cancel flag, and after each it adds
the nonces that it passed to a common tally.
-/

namespace Hashwork.Mining

/-- The nonces of a worker, from `first` up to `finish`, which is not included. -/
structure Portion where
  first : Nat
  finish : Nat
deriving DecidableEq, Repr

/-- The portion of worker `i` of so many. -/
def portion (workers i : Nat) : Portion :=
  let span := UInt32.size / workers
  ⟨i * span, if i + 1 = workers then UInt32.size else i * span + span⟩

/-- The most nonces that are scanned between two looks at the flag. -/
def pieceLength : Nat := 0x10000

namespace Worker

inductive Event where
  | readFlag
  | send (share : Share)
  | note (line : Log.Line)
  | tally (nonces : Nat)

abbrev Event.Answer : Event → Type
  | .readFlag => Bool
  | .send _ => Bool
  | .note _ | .tally _ => Unit

abbrev Working := Routine Event Event.Answer

def Event.ofScan : Scan.Event → Event
  | .readFlag => .readFlag
  | .offer share => .send share
  | .note line => .note line

/-- What a scan learns from its worker's surroundings. -/
def answerToScan : (e : Scan.Event) → (Event.ofScan e).Answer → e.Answer
  | .readFlag, raised => raised
  | .offer _, taken => taken
  | .note _, answer => answer

/-- Whether a worker has a next turn, with its item. -/
inductive Turn where
  | again (item : WorkItem)
  | last (item : WorkItem)

def Turn.item : Turn → WorkItem
  | again item | last item => item

/-- Looks at the flag, scans one piece, and adds to the tally. -/
def turn (scanner : Scanner) (finish : Nat) (item : WorkItem) : Working Turn :=
  .ask .readFlag fun cancelled ↦
    if cancelled || finish ≤ item.nextNonce then .done (.last item)
    else
      ((scanner.scan item (min (item.nextNonce + pieceLength) finish)).embed Event.ofScan
        answerToScan).bind fun (item, report) ↦
          .ask (.tally report.processed) fun _ ↦
            .done (if report.ending = .cancelled then .last item else .again item)

end Worker

end Hashwork.Mining
