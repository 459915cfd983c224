import Hashwork.Sha256.Compression

/-!
# The double hash of a header by nonce

Starting from the midstate only two blocks are left: the header's tail, with the nonce in it, and the
padded first digest.
-/

namespace Hashwork.Sha256

/-- Fills a digest up to a block: the padding of a message of 32 bytes. -/
def digestPad : Vector Word 8 :=
  #v[0x80000000, 0, 0, 0, 0, 0, 0, 0x100]

/-- The number of the tail word that holds the nonce. -/
def noncePlace : Nat := 3

theorem noncePlace_lt : noncePlace < 16 := by decide

def withNonceWord (tail : Block) (nonce : Word) : Block :=
  tail.set noncePlace nonce.reverseBytes noncePlace_lt

/-- The final state of the double hash at `nonce`.  Whatever nonce `tail` holds is replaced. -/
def doubleHash (midstate : State) (tail : Block) (pad : Vector Word 8) (nonce : Word) : State :=
  let first := compress midstate (withNonceWord tail nonce)
  compress initial (first.toVector ++ pad)

/-- A test on the last word of a final state that no accepted hash fails: read as the top word of
the hash it is at most the top word of the target. -/
def mayBeAccepted (word₇ topWord : Word) : Bool :=
  word₇.reverseBytes ≤ topWord

end Hashwork.Sha256
