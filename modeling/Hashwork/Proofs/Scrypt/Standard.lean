import Hashwork.Scrypt.KeyDerivation

/-!
# Scrypt as it is specified

The hash is specified on strings of bytes, for any block size `r` and any parallelism `p`: the core is a list
of assignments, a block is mixed into a new one whose chunks are then put in another order, and the table has
an entry for each number below `n`.
-/

namespace Hashwork.Scrypt.Standard

/-- The unit that the core works on. -/
abbrev Chunk := Bytes 64

abbrev Block (r : Nat) := Vector Chunk (2 * r)

namespace Chunk

def xor (x y : Chunk) : Chunk :=
  x.zipWith (· ^^^ ·) y

/-- The word in four bytes, which is the number that they hold. -/
def word (b : Chunk) (i : Fin 16) : Word :=
  (Bytes.value (Vector.ofFn fun k : Fin 4 ↦ b[4 * i.val + k.val])).toUInt32

def ofWords (words : Vector Word 16) : Chunk :=
  Vector.ofFn fun k ↦ (words[k.val / 4].toNat >>> (8 * (k.val % 4))).toUInt8

end Chunk

/-- `x[target] ^= (x[left] + x[right]) <<< count`, where what is shifted out comes in again. -/
structure Assignment where
  target : Fin 16
  left : Fin 16
  right : Fin 16
  count : Word
deriving DecidableEq

def Assignment.apply (x : Vector Word 16) (a : Assignment) : Vector Word 16 :=
  x.set a.target (x[a.target] ^^^ (x[a.left] + x[a.right]).rotateLeft a.count)

/-- Two rounds of the core. -/
def doubleRound : List Assignment :=
  [⟨4, 0, 12, 7⟩, ⟨8, 4, 0, 9⟩, ⟨12, 8, 4, 13⟩, ⟨0, 12, 8, 18⟩,
    ⟨9, 5, 1, 7⟩, ⟨13, 9, 5, 9⟩, ⟨1, 13, 9, 13⟩, ⟨5, 1, 13, 18⟩,
    ⟨14, 10, 6, 7⟩, ⟨2, 14, 10, 9⟩, ⟨6, 2, 14, 13⟩, ⟨10, 6, 2, 18⟩,
    ⟨3, 15, 11, 7⟩, ⟨7, 3, 15, 9⟩, ⟨11, 7, 3, 13⟩, ⟨15, 11, 7, 18⟩,
    ⟨1, 0, 3, 7⟩, ⟨2, 1, 0, 9⟩, ⟨3, 2, 1, 13⟩, ⟨0, 3, 2, 18⟩,
    ⟨6, 5, 4, 7⟩, ⟨7, 6, 5, 9⟩, ⟨4, 7, 6, 13⟩, ⟨5, 4, 7, 18⟩,
    ⟨11, 10, 9, 7⟩, ⟨8, 11, 10, 9⟩, ⟨9, 8, 11, 13⟩, ⟨10, 9, 8, 18⟩,
    ⟨12, 15, 14, 7⟩, ⟨13, 12, 15, 9⟩, ⟨14, 13, 12, 13⟩, ⟨15, 14, 13, 18⟩]

/-- Eight rounds, added to what they started from. -/
def core (b : Chunk) : Chunk :=
  let words : Vector Word 16 := Vector.ofFn b.word
  let mixed := Nat.repeat (doubleRound.foldl Assignment.apply) 4 words
  .ofWords (mixed.zipWith (· + ·) words)

section BlockSize

variable {r : Nat} (hr : 0 < r)

/-- Each chunk in turn is mixed with the result for the one before it, the first with the last chunk.  The
results of even number come first. -/
def mixBlock (b : Block r) : Block r :=
  let (_, y) := Nat.fold (2 * r) (fun i _ (x, y) ↦
    let x := core (x.xor b[i])
    (x, Vector.set y i x)) (b[2 * r - 1], b)
  Vector.ofFn fun i ↦ if h : i.val < r then y[2 * i.val] else y[2 * (i.val - r) + 1]

/-- The number in the last chunk. -/
def integerify (b : Block r) : Nat :=
  b[2 * r - 1].value

/-- A block and those that it is mixed into. -/
def table (n : Nat) (b : Block r) : Vector (Block r) n :=
  Vector.ofFn fun i ↦ Nat.repeat (mixBlock hr) i b

def stir {n : Nat} (hn : 0 < n) (table : Vector (Block r) n) (x : Block r) : Block r :=
  have := Nat.mod_lt (integerify hr x) hn
  mixBlock hr (x.zipWith Chunk.xor table[integerify hr x % n])

def mixWithTable {n : Nat} (hn : 0 < n) (b : Block r) : Block r :=
  Nat.repeat (stir hr hn (table hr n b)) n (Nat.repeat (mixBlock hr) n b)

/-- Places in `m` rows of length `n`. -/
theorem place_lt {m n i j : Nat} (hi : i < m) (hj : j < n) : i * n + j < m * n := by
  calc
    i * n + j < (i + 1) * n := by rw [Nat.succ_mul]; omega
    _ ≤ m * n := Nat.mul_le_mul_right n hi

/-- The blocks that a string is cut into. -/
def blocks (r : Nat) {p : Nat} (bytes : Bytes (p * (2 * r) * 64)) : Vector (Block r) p :=
  Vector.ofFn fun i ↦ Vector.ofFn fun j ↦ Vector.ofFn fun k ↦
    have := place_lt (place_lt i.isLt j.isLt) k.isLt
    bytes[(i.val * (2 * r) + j.val) * 64 + k.val]

/-- The first `length` bytes of the hash. -/
def hash (password salt : Array UInt8) {n : Nat} (hn : 0 < n) (p length : Nat) : Bytes length :=
  let mixed := (blocks r (p := p) (KeyDerivation.derive password salt _)).map (mixWithTable hr hn)
  KeyDerivation.derive password mixed.flatten.flatten.toArray length

end BlockSize

end Hashwork.Scrypt.Standard
