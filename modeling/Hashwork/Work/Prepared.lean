import Hashwork.Work.Item

/-!
# What stays fixed while the nonce varies

Of the tail block only word 3 holds the nonce.  So the first three rounds can be done once for all
nonces, and so can the schedule words 16 and 17, which do not depend on word 3.
-/

namespace Hashwork

structure Prepared where
  header : Header
  midstate : Sha256.State
  tail : Sha256.Block
  /-- The working state after the three rounds before the nonce. -/
  state₃ : Sha256.State
  word₁₆ : Word
  word₁₇ : Word
  pad : Vector Word 8

namespace Prepared

open Sha256 (roundConstants round scheduleTo)

def ofItem (item : WorkItem) : Prepared :=
  let tail := item.header.tail
  let words := scheduleTo tail 2
  { header := item.header
    midstate := item.midstate
    tail := tail
    state₃ := Nat.fold 3 (fun i _ s ↦ round s roundConstants[i] words[i]) item.midstate
    word₁₆ := words[16]
    word₁₇ := words[17]
    pad := item.pad }

end Prepared

end Hashwork
