import Hashwork.Sha256.Message
import Hashwork.Work.Prepared

/-!
# Hashing with the PadLock engine

The engine hashes a message with a single instruction: it starts from the state that it is given, pads the
message by itself, and leaves the final state.  So a header is hashed as it stands, nonce and all, and of what
is prepared for it nothing else is used.
-/

namespace Hashwork.PadLock

/-- The instruction, for a message of which nothing has been hashed before. -/
def hashMessage (state : Sha256.State) (message : Array UInt8) : Sha256.State :=
  Sha256.absorb state (Sha256.pad message)

def doubleHash (prepared : Prepared) (nonce : Word) : Sha256.State :=
  let first := hashMessage Sha256.initial (prepared.header.withNonce nonce).bytes.toArray
  hashMessage Sha256.initial first.toBytes.toArray

end Hashwork.PadLock
