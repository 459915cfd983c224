import Hashwork.Sha256.Message

/-!
# Key derivation

HMAC with SHA-256, and the key derivation built on it with a single iteration, as scrypt uses it: each
32 bytes of output are the authentication code, under the password, of the salt and the number of the
output block.
-/

namespace Hashwork

/-- Keys longer than a block are hashed first, and shorter ones are filled up with zeros. -/
def Hmac.blockKey (key : Array UInt8) : Array UInt8 :=
  let key := if key.size > 64 then (Sha256.digest key).toArray else key
  key ++ Array.replicate (64 - key.size) 0

def Hmac.code (key message : Array UInt8) : Digest :=
  let key := blockKey key
  let inner := Sha256.digest (key.map (· ^^^ 0x36) ++ message)
  Sha256.digest (key.map (· ^^^ 0x5c) ++ inner.toArray)

/-- A block number as four bytes, most significant first. -/
def KeyDerivation.numberField (number : Nat) : Array UInt8 :=
  Array.ofFn (Word.bigEndianByte number.toUInt32)

/-- The first `length` bytes derived from a password and a salt in one iteration. -/
def KeyDerivation.derive (password salt : Array UInt8) (length : Nat) : Bytes length :=
  let blocks : Vector Digest ((length + 31) / 32) :=
    Vector.ofFn fun i ↦ Hmac.code password (salt ++ numberField (i.val + 1))
  Vector.ofFn fun i ↦ blocks[i.val / 32][i.val % 32]

end Hashwork
