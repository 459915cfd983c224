import Hashwork.Bytes.Format

/-!
# Shares

A share is an accepted nonce with its hash.
-/

namespace Hashwork

structure Share where
  nonce : Word
  hash : Digest
deriving DecidableEq

namespace Share

/-- The nonce in eight hexadecimal digits, and the hash in its usual order. -/
def text (share : Share) : String :=
  "nonce " ++ Hex.encodeWord share.nonce ++ " hash " ++ share.hash.toReversedHex

def label (share : Share) : String :=
  "Share(" ++ share.text ++ ")"

end Share

end Hashwork
