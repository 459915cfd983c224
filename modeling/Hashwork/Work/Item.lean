import Hashwork.Header
import Hashwork.Scrypt.Hash
import Hashwork.Sha256.DoubleHash
import Hashwork.Sha256.Message
import Hashwork.Target
import Hashwork.Work.CancelFlag
import Hashwork.Work.Share

/-!
# Work items

A work item is a header to be tried with many nonces, the target its hash has to meet, and what has
been derived from the header before any nonce is tried.  It also holds what a scan leaves behind: the
nonce tried last (in the header), the candidate hash recorded last, and the nonce to go on from.
-/

namespace Hashwork

/-- The function that a header is hashed with. -/
inductive ProofOfWork where
  | sha256d
  | scrypt
deriving DecidableEq, Repr

def ProofOfWork.label : ProofOfWork → String
  | .sha256d => "Sha256d"
  | .scrypt => "Scrypt"

structure WorkItem where
  header : Header
  midstate : Sha256.State
  pad : Vector Word 8
  target : Target
  pow : ProofOfWork
  cancel : CancelFlag
  /-- The candidate hash recorded last; zeros at first. -/
  hash : Digest
  /-- Where the next scan starts.  It is `2 ^ 32` when all nonces have been tried. -/
  nextNonce : Nat

namespace WorkItem

/-- A fresh item, to be scanned from the header's own nonce on. -/
def ofHeader (header : Header) (target : Target) (cancel : CancelFlag) : WorkItem where
  header := header
  midstate := header.midstate
  pad := Sha256.digestPad
  target := target
  pow := .sha256d
  cancel := cancel
  hash := Vector.replicate 32 0
  nextNonce := header.nonce.toNat

/-- A midstate that comes from elsewhere belongs to another header. -/
inductive MidstateFault where
  | mismatch
deriving DecidableEq, Repr

def MidstateFault.message : MidstateFault → String
  | .mismatch => "midstate does not match the header"

/-- A fresh item from a header and a midstate that was computed elsewhere. -/
def ofParts (header : Header) (midstate : Sha256.State) (target : Target) (cancel : CancelFlag) :
    Except MidstateFault WorkItem :=
  if header.midstate = midstate then .ok (ofHeader header target cancel) else .error .mismatch

def withPow (item : WorkItem) (pow : ProofOfWork) : WorkItem :=
  { item with pow := pow }

def withCancelFlag (item : WorkItem) (cancel : CancelFlag) : WorkItem :=
  { item with cancel := cancel }

def withNextNonce (item : WorkItem) (nonce : Nat) : WorkItem :=
  { item with nextNonce := nonce }

/-- The item with `nonce` as the one tried last. -/
def tried (item : WorkItem) (nonce : Word) : WorkItem :=
  { item with header := item.header.withNonce nonce }

/-- The item after `nonce` has turned out a candidate with this hash. -/
def record (item : WorkItem) (nonce : Word) (hash : Digest) : WorkItem :=
  { item with header := item.header.withNonce nonce, hash := hash }

/-- The hash of the header at `nonce`, computed without any of the engines. -/
def powHash (item : WorkItem) (nonce : Word) : Digest :=
  let header := item.header.withNonce nonce
  match item.pow with
  | .sha256d => Sha256.doubleDigest header.bytes.toArray
  | .scrypt => Scrypt.hash header.bytes

/-- The double hash at `nonce`, whatever the item's proof of work is. -/
def referenceHash (item : WorkItem) (nonce : Word) : Digest :=
  (Sha256.doubleHash item.midstate item.header.tail item.pad nonce).toBytes

def checkShare (item : WorkItem) (share : Share) : Bool :=
  item.powHash share.nonce == share.hash && item.target.accepts share.hash

end WorkItem

end Hashwork
