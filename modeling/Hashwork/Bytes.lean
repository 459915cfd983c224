import Hashwork.Word

/-!
# Byte strings of known length

Headers, targets and hashes are byte strings whose length is part of their type.  Words are read
from them most significant byte first; as a number such a string is read least significant byte
first, which is how a target and a hash are compared.
-/

namespace Hashwork

abbrev Bytes (n : Nat) := Vector UInt8 n

/-- The result of SHA-256, in the order in which it is written to memory. -/
abbrev Digest := Bytes 32

namespace Bytes

variable {n : Nat}

/-- The number that the bytes hold, least significant byte first. -/
def value (bytes : Bytes n) : Nat :=
  bytes.toList.foldr (fun byte rest ↦ byte.toNat + 256 * rest) 0

/-- The word in the four bytes from `i` on, most significant first. -/
def word (bytes : Bytes n) (i : Nat) (h : i + 4 ≤ n := by omega) : Word :=
  Word.ofBigEndian bytes[i] bytes[i + 1] bytes[i + 2] bytes[i + 3]

/-- The word in the four bytes from `i` on, least significant first. -/
def littleEndianWord (bytes : Bytes n) (i : Nat) (h : i + 4 ≤ n := by omega) : Word :=
  Word.ofLittleEndian bytes[i] bytes[i + 1] bytes[i + 2] bytes[i + 3]

/-- Words written out in order, most significant byte first. -/
def ofWords (words : Vector Word n) : Bytes (4 * n) :=
  Vector.ofFn fun i ↦ Word.bigEndianByte words[i.val / 4] ⟨i.val % 4, by omega⟩

/-- Words written out in order, least significant byte first. -/
def ofLittleEndianWords (words : Vector Word n) : Bytes (4 * n) :=
  Vector.ofFn fun i ↦ Word.littleEndianByte words[i.val / 4] ⟨i.val % 4, by omega⟩

end Bytes

end Hashwork
