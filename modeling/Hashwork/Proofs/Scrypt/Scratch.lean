import Hashwork.Proofs.Loop
import Hashwork.Scrypt.Hash
import Mathlib.Logic.Function.Iterate

/-!
# The table is scratch space

The mixing fills its table with the successors of a block before it reads any entry, and it reads no entry
that it has not written.  So the hash does not depend on what the table held before, and a table can be
used for one header after another.
-/

namespace Hashwork.Scrypt

variable {size : Nat}

theorem writeBlock_getElem (table : Vector Word size) (start : Nat) (h : start + 32 ≤ size)
    (x : Halves) (k : Nat) (hk : k < size) :
    (writeBlock table start h x)[k] =
      if hin : start ≤ k ∧ k < start + 32 then x.toWords[k - start] else table[k] := by
  let written (i : Nat) (t : Vector Word size) : Prop :=
    ∀ hi : i ≤ 32, t[k] =
      if hin : start ≤ k ∧ k < start + i then x.toWords[k - start] else table[k]
  have hstart : written 0 table := by
    intro _
    rw [dif_neg (by omega)]
  have hend := fold_invariant (n := 32)
    (f := fun i _ t ↦ t.set (start + i) x.toWords[i]) (P := written) hstart ?_
  · exact hend (Nat.le_refl 32)
  · intro i hi t ht hle
    rw [Vector.getElem_set, ht (by omega)]
    by_cases heq : start + i = k
    · subst heq
      rw [if_pos rfl, dif_pos (by omega)]
      simp only [Nat.add_sub_cancel_left]
    · rw [if_neg heq]
      split <;> split <;> first | rfl | omega

theorem readBlock_eq {table : Vector Word size} {start : Nat} {h : start + 32 ≤ size} {x : Halves}
    (hwords : ∀ k (_ : k < 32) (_ : start + k < size), table[start + k] = x.toWords[k]) :
    readBlock table start h = x := by
  have hlo : (readBlock table start h).lo = x.lo := by
    ext k hk : 1
    simp only [readBlock, Vector.getElem_ofFn]
    rw [hwords k (by omega) (by omega)]
    exact Vector.getElem_append_left hk
  have hhi : (readBlock table start h).hi = x.hi := by
    ext k hk : 1
    simp only [readBlock, Vector.getElem_ofFn, Nat.add_assoc]
    rw [hwords (16 + k) (by omega) (by omega)]
    simp only [Halves.toWords]
    rw [Vector.getElem_append_right (by omega) (by omega)]
    simp only [Nat.add_sub_cancel_left]
  cases x
  exact congrArg₂ Halves.mk hlo hhi

theorem readBlock_congr {table other : Vector Word size} {start : Nat} {h : start + 32 ≤ size}
    (hwords : ∀ k (_ : k < 32) (_ : start + k < size), table[start + k] = other[start + k]) :
    readBlock table start h = readBlock other start h := by
  simp only [readBlock, Halves.mk.injEq]
  constructor
  · apply congrArg
    funext k
    exact hwords k.val (by omega) (by omega)
  · apply congrArg
    funext k
    simp only [Nat.add_assoc]
    exact hwords (16 + k.val) (by omega) (by omega)

@[simp]
theorem readBlock_writeBlock (table : Vector Word size) (start : Nat) (h : start + 32 ≤ size)
    (x : Halves) : readBlock (writeBlock table start h x) start h = x := by
  apply readBlock_eq
  intro k hk hlt
  rw [writeBlock_getElem, dif_pos (by omega)]
  simp only [Nat.add_sub_cancel_left]

theorem readBlock_writeBlock_of_le (table : Vector Word size) {start next : Nat}
    (h : next + 32 ≤ size) (hle : start + 32 ≤ next) (x : Halves) :
    readBlock (writeBlock table next h x) start (by omega) = readBlock table start (by omega) := by
  apply readBlock_congr
  intro k hk hlt
  rw [writeBlock_getElem, dif_neg (by omega)]

/-- The filled table holds the successors of the block, whatever it held before. -/
theorem fillTable_spec (n : Nat) (h : 32 * n ≤ size) (x : Halves) (table : Vector Word size) :
    (fillTable n h x table).1 = Halves.mix^[n] x ∧
      ∀ j < n, ∀ hj : 32 * j + 32 ≤ size,
        readBlock (fillTable n h x table).2 (32 * j) hj = Halves.mix^[j] x := by
  let filled (i : Nat) (s : Halves × Vector Word size) : Prop :=
    s.1 = Halves.mix^[i] x ∧
      ∀ j < i, ∀ hj : 32 * j + 32 ≤ size, readBlock s.2 (32 * j) hj = Halves.mix^[j] x
  have hstart : filled 0 (x, table) := ⟨rfl, fun j hj ↦ absurd hj (Nat.not_lt_zero j)⟩
  apply fold_invariant (P := filled) hstart
  rintro i hi ⟨y, t⟩ ⟨hy, ht⟩
  constructor
  · rw [Function.iterate_succ_apply', ← hy]
  · intro j hj hfits
    rcases Nat.lt_succ_iff_lt_or_eq.mp hj with hearlier | rfl
    · rw [readBlock_writeBlock_of_le t (by omega) (by omega) y, ht j hearlier hfits]
    · rw [readBlock_writeBlock, ← hy]

theorem stirTable_congr (n : Nat) (h : 32 * n ≤ size) (x : Halves) {table other : Vector Word size}
    (hentries : ∀ j < n, ∀ hj : 32 * j + 32 ≤ size,
      readBlock table (32 * j) hj = readBlock other (32 * j) hj) :
    stirTable n h x table = stirTable n h x other := by
  unfold stirTable
  apply congrArg (Nat.fold n · x)
  funext i hi y
  have hle : y.hi[0].toNat &&& (n - 1) ≤ n - 1 := Nat.and_le_right
  simp only [hentries _ (by omega : y.hi[0].toNat &&& (n - 1) < n)]

theorem mixWithTable_fst (n : Nat) (h : 32 * n ≤ size) (words : Vector Word 32)
    (table other : Vector Word size) :
    (mixWithTable n h words table).1 = (mixWithTable n h words other).1 := by
  obtain ⟨hblock, hentries⟩ := fillTable_spec n h (.ofWords words) table
  obtain ⟨hblock', hentries'⟩ := fillTable_spec n h (.ofWords words) other
  unfold mixWithTable
  dsimp only
  rw [hblock, hblock']
  apply congrArg
  apply stirTable_congr
  intro j hlt hj
  rw [hentries j hlt hj, hentries' j hlt hj]

theorem derive_fst (password salt : Array UInt8) (n : Nat) (h : 32 * n ≤ size)
    (table other : Vector Word size) (length : Nat) :
    (derive password salt n h table length).1 = (derive password salt n h other length).1 := by
  simp only [derive]
  rw [mixWithTable_fst n h _ table other]

/-- A table left behind by one header serves the next. -/
theorem hashWith_fst (table : Table) (header : Bytes 80) : (hashWith table header).1 = hash header := by
  have hderive (table : Table) : hashWith table header =
      derive header.toArray header.toArray cost (Nat.le_refl _) table 32 := rfl
  rw [hash, hderive, hderive]
  exact derive_fst _ _ cost _ table Table.empty 32

end Hashwork.Scrypt
