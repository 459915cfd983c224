import Hashwork.Scrypt.Salsa

/-!
# Mixing with a table

The mixing works on one block of thirty-two words, kept as two halves, and on a table of `n` blocks
that the caller supplies as scratch space.  Every entry of the table is written before it is read, and
every access is inside it, so what the scratch space held before has no influence.
-/

namespace Hashwork.Scrypt

structure Halves where
  lo : Salsa.Square
  hi : Salsa.Square
deriving DecidableEq, Repr

namespace Halves

def xor (x y : Halves) : Halves :=
  ⟨x.lo.zipWith (· ^^^ ·) y.lo, x.hi.zipWith (· ^^^ ·) y.hi⟩

def ofWords (words : Vector Word 32) : Halves :=
  ⟨Vector.ofFn fun i ↦ words[i.val], Vector.ofFn fun i ↦ words[i.val + 16]⟩

def toWords (x : Halves) : Vector Word 32 :=
  x.lo ++ x.hi

/-- Each half in turn is mixed with what the other has become.  The halves keep their places. -/
def mix (x : Halves) : Halves :=
  let lo := Salsa.core (x.lo.zipWith (· ^^^ ·) x.hi)
  ⟨lo, Salsa.core (x.hi.zipWith (· ^^^ ·) lo)⟩

end Halves

variable {size : Nat}

/-- The block in the thirty-two words of the table from `start` on. -/
def readBlock (table : Vector Word size) (start : Nat) (h : start + 32 ≤ size) : Halves :=
  ⟨Vector.ofFn fun i ↦ table[start + i.val], Vector.ofFn fun i ↦ table[start + 16 + i.val]⟩

def writeBlock (table : Vector Word size) (start : Nat) (h : start + 32 ≤ size) (x : Halves) :
    Vector Word size :=
  let words := x.toWords
  Nat.fold 32 (fun i _ table ↦ table.set (start + i) words[i]) table

/-- Writes the block and its `n - 1` successors under `mix` to the table; the result is the next
successor. -/
def fillTable (n : Nat) (h : 32 * n ≤ size) (x : Halves) (table : Vector Word size) :
    Halves × Vector Word size :=
  n.fold (fun i _ (x, table) ↦ (x.mix, writeBlock table (32 * i) (by omega) x)) (x, table)

/-- Mixes the block `n` times, each time with the entry that its second half points to. -/
def stirTable (n : Nat) (h : 32 * n ≤ size) (x : Halves) (table : Vector Word size) : Halves :=
  n.fold (fun i _ x ↦
    let entry := x.hi[0].toNat &&& (n - 1)
    have : entry ≤ n - 1 := Nat.and_le_right
    (x.xor (readBlock table (32 * entry) (by omega))).mix) x

/-- The mixed block, and the table for its next use. -/
def mixWithTable (n : Nat) (h : 32 * n ≤ size) (words : Vector Word 32)
    (table : Vector Word size) : Vector Word 32 × Vector Word size :=
  let (x, table) := fillTable n h (.ofWords words) table
  ((stirTable n h x table).toWords, table)

end Hashwork.Scrypt
