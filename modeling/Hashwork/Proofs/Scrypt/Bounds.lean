import Hashwork.Scrypt.Hash

/-!
# Every access is inside the table

A checked mixing is the same mixing with a look at the length of the table before each word that is read from
it or written to it.  An access outside the table ends it with `none`; none does.
-/

namespace Hashwork

/-- A counted loop none of whose steps fails. -/
theorem foldlM_range_eq_some {α β : Type} (abstraction : α → β) {n : Nat}
    {f : (i : Nat) → i < n → α → α} {g : β → Nat → Option β}
    (hstep : ∀ i (hi : i < n) a, g (abstraction a) i = some (abstraction (f i hi a))) (a : α) :
    (List.range n).foldlM g (abstraction a) = some (abstraction (n.fold f a)) := by
  induction n with
  | zero => rfl
  | succ n ih =>
    have hbefore := ih fun i hi a ↦ hstep i (Nat.lt_succ_of_lt hi) a
    rw [List.range_succ, List.foldlM_append, hbefore, Nat.fold_succ, ← hstep]
    simp

namespace Scrypt.Checked

def writeWord (table : Array Word) (i : Nat) (word : Word) : Option (Array Word) :=
  if h : i < table.size then some (table.set i word) else none

def readBlock (table : Array Word) (start : Nat) : Option Halves := do
  let lo : Salsa.Square ← Vector.ofFnM fun i ↦ table[start + i.val]?
  let hi : Salsa.Square ← Vector.ofFnM fun i ↦ table[start + 16 + i.val]?
  return ⟨lo, hi⟩

def writeBlock (table : Array Word) (start : Nat) (x : Halves) : Option (Array Word) :=
  (List.range 32).foldlM (fun table i ↦ writeWord table (start + i) x.toWords[i]!) table

def fillTable (n : Nat) (x : Halves) (table : Array Word) : Option (Halves × Array Word) :=
  (List.range n).foldlM (fun (x, table) i ↦ return (x.mix, ← writeBlock table (32 * i) x)) (x, table)

theorem square_pos : 0 < 16 := by decide

def stirTable (n : Nat) (x : Halves) (table : Array Word) : Option Halves :=
  (List.range n).foldlM (fun x _ ↦
    return (x.xor (← readBlock table (32 * ((x.hi.get ⟨0, square_pos⟩).toNat &&& (n - 1))))).mix) x

/-- The block in a string of bytes. -/
def wordsOf (bytes : Bytes 128) : Vector Word 32 :=
  Vector.ofFn fun i ↦ bytes.littleEndianWord (4 * i.val)

/-- The hash, and the table for its next use, unless an access is outside the table. -/
def derive (password salt : Array UInt8) (n : Nat) (table : Array Word) (length : Nat) :
    Option (Bytes length × Array Word) := do
  let words := wordsOf (KeyDerivation.derive password salt 128)
  let (x, table) ← fillTable n (.ofWords words) table
  let x ← stirTable n x table
  return (KeyDerivation.derive password (Bytes.ofLittleEndianWords x.toWords).toArray length, table)

variable {size : Nat}

theorem readBlock_eq (table : Vector Word size) (start : Nat) (h : start + 32 ≤ size) :
    readBlock table.toArray start = some (Scrypt.readBlock table start h) := by
  have hword (i : Nat) (hi : i < size) : table.toArray[i]? = pure table[i] := by
    simp [hi]
  have hlo (i : Fin 16) := hword (start + i.val) (by omega)
  have hhi (i : Fin 16) := hword (start + 16 + i.val) (by omega)
  simp only [readBlock, hlo, hhi, Vector.ofFnM_pure]
  rfl

theorem writeBlock_eq (table : Vector Word size) (start : Nat) (h : start + 32 ≤ size) (x : Halves) :
    writeBlock table.toArray start x = some (Scrypt.writeBlock table start h x).toArray := by
  apply foldlM_range_eq_some Vector.toArray
  intro i hi table
  have hinside : start + i < table.toArray.size := by
    rw [table.size_toArray]
    omega
  rw [writeWord, dif_pos hinside, getElem!_pos x.toWords i hi]
  rfl

theorem fillTable_eq (n : Nat) (h : 32 * n ≤ size) (x : Halves) (table : Vector Word size) :
    fillTable n x table.toArray =
      some ((Scrypt.fillTable n h x table).1, (Scrypt.fillTable n h x table).2.toArray) := by
  refine foldlM_range_eq_some (fun s ↦ (s.1, s.2.toArray)) ?_ (x, table)
  rintro i hi ⟨x, table⟩
  simp only [writeBlock_eq table (32 * i) (by omega) x]
  rfl

theorem stirTable_eq (n : Nat) (h : 32 * n ≤ size) (x : Halves) (table : Vector Word size) :
    stirTable n x table.toArray = some (Scrypt.stirTable n h x table) := by
  refine foldlM_range_eq_some id ?_ x
  intro i hi x
  have hentry : (x.hi.get ⟨0, square_pos⟩).toNat &&& (n - 1) ≤ n - 1 := Nat.and_le_right
  have hinside : 32 * ((x.hi.get ⟨0, square_pos⟩).toNat &&& (n - 1)) + 32 ≤ size := by omega
  simp only [id_eq, readBlock_eq table _ hinside]
  rfl

/-- No access is outside a table of `n` blocks. -/
theorem derive_eq_some (password salt : Array UInt8) (n : Nat) (h : 32 * n ≤ size)
    (table : Vector Word size) (length : Nat) :
    derive password salt n table.toArray length =
      some ((Scrypt.derive password salt n h table length).1,
        (Scrypt.derive password salt n h table length).2.toArray) := by
  simp only [derive, fillTable_eq n h, Option.bind_eq_bind, Option.bind_some, stirTable_eq n h]
  rfl

end Scrypt.Checked

end Hashwork
