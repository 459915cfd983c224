import Hashwork.Scrypt.KeyDerivation
import Hashwork.Scrypt.Mix

/-!
# The scrypt hash

Block size and parallelism are one.  The hash of a header uses the header both as password and as salt,
and a table of 1024 blocks.
-/

namespace Hashwork.Scrypt

/-- The number of blocks in the table for a header. -/
def cost : Nat := 1024

abbrev Table := Vector Word (32 * cost)

def Table.empty : Table := Vector.replicate (32 * cost) 0

/-- The first `length` bytes of the hash, with the table for its next use. -/
def derive {size : Nat} (password salt : Array UInt8) (n : Nat) (h : 32 * n ≤ size)
    (table : Vector Word size) (length : Nat) : Bytes length × Vector Word size :=
  let bytes := KeyDerivation.derive password salt 128
  let words : Vector Word 32 := Vector.ofFn fun i ↦ bytes.littleEndianWord (4 * i.val)
  let (mixed, table) := mixWithTable n h words table
  (KeyDerivation.derive password (Bytes.ofLittleEndianWords mixed).toArray length, table)

/-- The proof-of-work hash of a header, with the table for its next use. -/
def hashWith (table : Table) (header : Bytes 80) : Digest × Table :=
  derive header.toArray header.toArray cost (Nat.le_refl _) table 32

def hash (header : Bytes 80) : Digest :=
  (hashWith .empty header).1

end Hashwork.Scrypt
