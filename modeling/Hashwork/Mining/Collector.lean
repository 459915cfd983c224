import Hashwork.Clock
import Hashwork.Mining.Progress

/-!
# The collector

The collector takes the shares that the workers send, looks whether the deadline has passed, and reports how
many nonces were passed since it last did.  It ends when all workers have, and all their shares are
reported.
-/

namespace Hashwork.Mining.Collector

/-- What comes out of the channel within a second. -/
inductive Received where
  | share (share : Share)
  | nothing
  /-- All workers have ended and nothing is left. -/
  | closed

inductive Event where
  | receive
  | readClock
  | readFlag
  | raiseFlag
  | note (line : Log.Line)
  | takeTally
  | reportShare (share : Share)
  | reportSpeed (rate : HashRate)

abbrev Event.Answer : Event → Type
  | .receive => Received
  | .readClock => Instant
  | .readFlag => Bool
  | .takeTally => Nat
  | .raiseFlag | .note _ | .reportShare _ | .reportSpeed _ => Unit

abbrev Collecting := Routine Event Event.Answer

/-- Whether there is a next turn. -/
inductive Turn where
  /-- The next turn counts time from `started` on; `total` nonces are reported. -/
  | again (started : Instant) (total : Nat)
  | last (total : Nat)
deriving DecidableEq, Repr

/-- Reports the nonces passed since `started`. -/
def report (started : Instant) (total : Nat) : Collecting Turn :=
  .ask .readClock fun next ↦
    .ask .readClock fun now ↦
      .ask .takeTally fun nonces ↦
        .ask (.reportSpeed ⟨nonces.toUInt64, now.since started⟩) fun _ ↦
          .done (.again next (total + nonces))

/-- Raises the flag if the deadline has passed and nobody else has raised it. -/
def watchDeadline (deadline : Option Instant) (rest : Collecting Turn) : Collecting Turn :=
  match deadline with
  | none => rest
  | some deadline =>
    .ask .readClock fun now ↦
      if deadline.nanos ≤ now.nanos then
        .ask .readFlag fun raised ↦
          if raised then rest
          else
            .ask (.note ⟨.info, "Mining time elapsed, stopping"⟩) fun _ ↦
              .ask .raiseFlag fun _ ↦ rest
      else rest

def turn (deadline : Option Instant) (started : Instant) (total : Nat) : Collecting Turn :=
  .ask .receive fun
    | .closed => .ask .takeTally fun nonces ↦ .done (.last (total + nonces))
    | .nothing => watchDeadline deadline (report started total)
    | .share share =>
      .ask (.reportShare share) fun _ ↦ watchDeadline deadline (report started total)

/-- The first turn, which counts time from when it begins. -/
def begin (deadline : Option Instant) : Collecting Turn :=
  .ask .readClock fun started ↦ turn deadline started 0

end Hashwork.Mining.Collector
