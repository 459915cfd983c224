import Hashwork.Sha256.Compression

/-!
# Hashing byte strings

A message is padded with a one bit, zeros and its length in bits to a whole number of 64-byte blocks,
which are absorbed in order.  Double hashing hashes the digest once more; it is how a header is hashed
for proof of work.
-/

namespace Hashwork.Sha256

/-- The number of zero bytes after the one bit: it leaves eight bytes of the last block for the
length. -/
def zeroCount (length : Nat) : Nat :=
  (119 - length % 64) % 64

/-- The length of a message in bits, as eight bytes, most significant first. -/
def lengthField (length : Nat) : Array UInt8 :=
  Array.ofFn fun i : Fin 8 ↦ ((8 * length) >>> (8 * (7 - i.val))).toUInt8

def pad (message : Array UInt8) : Array UInt8 :=
  message ++ #[0x80] ++ Array.replicate (zeroCount message.size) 0 ++ lengthField message.size

/-- Block `i` of a padded message. -/
def blockAt (bytes : Array UInt8) (i : Nat) : Block :=
  Vector.ofFn fun j ↦
    let at₀ := 64 * i + 4 * j.val
    Word.ofBigEndian (bytes.getD at₀ 0) (bytes.getD (at₀ + 1) 0) (bytes.getD (at₀ + 2) 0)
      (bytes.getD (at₀ + 3) 0)

/-- The state after absorbing all whole blocks of `bytes`. -/
def absorb (s : State) (bytes : Array UInt8) : State :=
  (List.range (bytes.size / 64)).foldl (fun s i ↦ compress s (blockAt bytes i)) s

def digest (message : Array UInt8) : Digest :=
  (absorb initial (pad message)).toBytes

def doubleDigest (message : Array UInt8) : Digest :=
  digest (digest message).toArray

end Hashwork.Sha256
