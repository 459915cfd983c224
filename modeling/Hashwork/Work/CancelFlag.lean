/-!
# Cancel flags

A cancel flag is a signal that several work items may share: raising it asks all of them to be
abandoned.  A flag is a name; the flags that are raised are kept apart, so that items with the same name
see the same signal.
-/

namespace Hashwork

structure CancelFlag where
  number : Nat
deriving DecidableEq, Repr

structure FlagTable where
  /-- The number of the next new flag. -/
  next : Nat
  raised : List CancelFlag

namespace FlagTable

def empty : FlagTable := ⟨0, []⟩

/-- A flag that no item has yet.  It is not raised. -/
def create (flags : FlagTable) : CancelFlag × FlagTable :=
  (⟨flags.next⟩, { flags with next := flags.next + 1 })

def isRaised (flags : FlagTable) (flag : CancelFlag) : Bool :=
  flags.raised.contains flag

def raise (flags : FlagTable) (flag : CancelFlag) : FlagTable :=
  { flags with raised := flag :: flags.raised }

def lower (flags : FlagTable) (flag : CancelFlag) : FlagTable :=
  { flags with raised := flags.raised.filter (· != flag) }

end FlagTable

end Hashwork
