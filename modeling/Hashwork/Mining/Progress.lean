import Hashwork.Log
import Hashwork.Mining.Rate
import Hashwork.Work.Share

/-!
# Progress of a miner

The shares found so far are counted, and each is logged and printed; a message that stands below them shows
the latest speed.
-/

namespace Hashwork

structure Progress where
  shares : Nat
  /-- What stands below the printed lines. -/
  message : String
  finished : Bool
deriving DecidableEq, Repr

namespace Progress

def start : Progress := ⟨0, "", false⟩

def shareLine (share : Share) : Log.Line :=
  ⟨.info, "Found share " ++ share.text⟩

/-- Counts a share and logs it. -/
def reportShare (progress : Progress) (share : Share) : Progress × Log.Line :=
  ({ progress with shares := progress.shares + 1 }, shareLine share)

/-- What is printed about the share counted last. -/
def printed (progress : Progress) (share : Share) : String :=
  "Share #" ++ toString progress.shares ++ ": " ++ share.text

/-- Speeds are shown with one decimal place. -/
def reportSpeed (progress : Progress) (rate : HashRate) : Progress :=
  { progress with
    message := "Mining at " ++ rate.text 1 ++ " (" ++ toString progress.shares ++ " shares)" }

def finish (progress : Progress) : Progress :=
  { progress with finished := true }

end Progress

end Hashwork
