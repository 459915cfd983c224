import Hashwork.Proofs.Kernel.Simulation
import Hashwork.Proofs.Scrypt.Bounds
import Hashwork.Proofs.Scrypt.Core
import Hashwork.Proofs.Scrypt.Scratch

/-!
# The hash is the specified one

With block size and parallelism one, a block is two chunks, which are the two halves written out.  Mixing
keeps the chunks of even number first, and of two chunks the first and the second stay where they are.  The
table of the specification is what the filled scratch space holds, and of the number that points to an entry
only the first word counts.
-/

namespace Hashwork

namespace Scrypt

open Standard

/-! ## Blocks -/

/-- The two chunks that the halves stand for. -/
def Halves.chunks (x : Halves) : Block 1 :=
  #v[.ofWords x.lo, .ofWords x.hi]

theorem Halves.chunks_getElem (x : Halves) (i : Nat) (hi : i < 2) :
    x.chunks[i] = .ofWords (if i = 0 then x.lo else x.hi) := by
  match i, hi with
  | 0, _ => rfl
  | 1, _ => rfl

theorem xor_square_comm (s t : Salsa.Square) : s.zipWith (· ^^^ ·) t = t.zipWith (· ^^^ ·) s := by
  ext i hi : 1
  simp only [Vector.getElem_zipWith, UInt32.xor_comm]

theorem xor_chunks (x y : Halves) : x.chunks.zipWith Chunk.xor y.chunks = (x.xor y).chunks := by
  ext i hi : 1
  simp only [Vector.getElem_zipWith, Halves.chunks_getElem _ i hi, Chunk.xor_ofWords]
  split <;> rfl

theorem mixBlock_chunks (x : Halves) : mixBlock Nat.one_pos x.chunks = x.mix.chunks := by
  have hchunks : mixBlock Nat.one_pos x.chunks =
      #v[core ((Chunk.ofWords x.hi).xor (.ofWords x.lo)),
        core ((core ((Chunk.ofWords x.hi).xor (.ofWords x.lo))).xor (.ofWords x.hi))] := rfl
  have hlo : core ((Chunk.ofWords x.hi).xor (.ofWords x.lo)) = .ofWords x.mix.lo := by
    rw [Chunk.xor_ofWords, core_ofWords, xor_square_comm]
    rfl
  have hhi : core ((Chunk.ofWords x.mix.lo).xor (.ofWords x.hi)) = .ofWords x.mix.hi := by
    rw [Chunk.xor_ofWords, core_ofWords, xor_square_comm]
    rfl
  rw [hchunks, hlo, hhi]
  rfl

theorem repeat_mixBlock_chunks (n : Nat) (x : Halves) :
    Nat.repeat (mixBlock Nat.one_pos) n x.chunks = (Halves.mix^[n] x).chunks := by
  induction n with
  | zero => rfl
  | succ n ih => rw [Nat.repeat, ih, mixBlock_chunks, Function.iterate_succ_apply']

/-! ## The table -/

section Table

variable {n : Nat} (hpow : n.isPowerOfTwo) (hle : n ≤ UInt32.size)

include hpow hle

/-- The first word of the second half points to the entry. -/
theorem integerify_chunks (x : Halves) :
    integerify Nat.one_pos x.chunks % n = x.hi[0].toNat &&& (n - 1) := by
  obtain ⟨k, rfl⟩ := hpow
  have hk : k ≤ 32 := (Nat.pow_le_pow_iff_right (by decide)).mp hle
  have hlast : integerify Nat.one_pos x.chunks = (Chunk.ofWords x.hi).value := rfl
  calc
    integerify Nat.one_pos x.chunks % 2 ^ k = (Chunk.ofWords x.hi).value % 2 ^ 32 % 2 ^ k := by
      rw [hlast, Nat.mod_mod_of_dvd _ (Nat.pow_dvd_pow 2 hk)]
    _ = x.hi[0].toNat % 2 ^ k := by
      rw [Chunk.value_mod, Chunk.word_ofWords]
      rfl
    _ = x.hi[0].toNat &&& (2 ^ k - 1) := (Nat.and_two_pow_sub_one_eq_mod _ k).symm

variable (hn : 0 < n)

theorem stir_chunks (x y : Halves) :
    stir Nat.one_pos hn (table Nat.one_pos n x.chunks) y.chunks =
      (y.xor (Halves.mix^[y.hi[0].toNat &&& (n - 1)] x)).mix.chunks := by
  simp only [stir, table, Vector.getElem_ofFn]
  rw [repeat_mixBlock_chunks, xor_chunks, mixBlock_chunks, integerify_chunks hpow hle]

variable {size : Nat} (h : 32 * n ≤ size)

theorem stirTable_chunks {x : Halves} {scratch : Vector Word size}
    (hentries : ∀ j < n, ∀ hj : 32 * j + 32 ≤ size, readBlock scratch (32 * j) hj = Halves.mix^[j] x)
    (y : Halves) :
    (stirTable n h y scratch).chunks =
      Nat.repeat (stir Nat.one_pos hn (table Nat.one_pos n x.chunks)) n y.chunks := by
  let stirred (i : Nat) (z : Halves) : Prop :=
    z.chunks = Nat.repeat (stir Nat.one_pos hn (table Nat.one_pos n x.chunks)) i y.chunks
  have hstart : stirred 0 y := rfl
  apply fold_invariant stirred hstart
  intro i _ z hz
  have hentry : z.hi[0].toNat &&& (n - 1) < n :=
    Nat.lt_of_le_of_lt Nat.and_le_right (Nat.sub_one_lt_of_lt hn)
  change _ = Nat.repeat _ (i + 1) _
  rw [Nat.repeat, ← hz, stir_chunks hpow hle hn, ← hentries _ hentry]

theorem mixWithTable_chunks (words : Vector Word 32) (scratch : Vector Word size) :
    Standard.mixWithTable Nat.one_pos hn (Halves.ofWords words).chunks =
      (stirTable n h (fillTable n h (.ofWords words) scratch).1
        (fillTable n h (.ofWords words) scratch).2).chunks := by
  obtain ⟨hblock, hentries⟩ := fillTable_spec n h (.ofWords words) scratch
  rw [stirTable_chunks hpow hle hn h hentries, hblock, Standard.mixWithTable,
    repeat_mixBlock_chunks]

end Table

/-! ## Bytes in and out -/

/-- A string of two chunks is one block, whose words the halves hold. -/
theorem blocks_eq (bytes : Bytes 128) :
    blocks 1 (p := 1) bytes = #v[(Halves.ofWords (Checked.wordsOf bytes)).chunks] := by
  have hbyte (i : Nat) (hi : i < 32) (k : Nat) (hk : k < 4) :
      (bytes.littleEndianWord (4 * i)).littleEndianByte ⟨k, hk⟩ = bytes[4 * i + k] := by
    rw [Bytes.littleEndianWord]
    match k, hk with
    | 0, _ | 1, _ | 2, _ | 3, _ =>
      exact Word.littleEndianByte_ofLittleEndian
        #v[bytes[4 * i], bytes[4 * i + 1], bytes[4 * i + 2], bytes[4 * i + 3]] _ _
  ext i hi j hj k hk : 3
  obtain rfl : i = 0 := Nat.lt_one_iff.mp hi
  have hplace : k / 4 < 32 ∧ k / 4 + 16 < 32 := by omega
  simp only [blocks, Vector.getElem_ofFn, Vector.getElem_singleton, Halves.chunks_getElem _ j hj,
    Chunk.ofWords_getElem]
  split
  · simp only [Halves.ofWords, Checked.wordsOf, Vector.getElem_ofFn]
    rw [hbyte _ hplace.1]
    congr 1
    omega
  · simp only [Halves.ofWords, Checked.wordsOf, Vector.getElem_ofFn]
    rw [hbyte _ hplace.2]
    congr 1
    omega

theorem flatten_chunks (x : Halves) :
    ((#v[x.chunks] : Vector (Block 1) 1).flatten.flatten : Bytes 128) =
      Bytes.ofLittleEndianWords x.toWords := by
  ext k hk : 1
  have hj : k / 64 < 2 := by omega
  have hchunk : (#v[x.chunks] : Vector (Block 1) 1).flatten[k / 64] =
      .ofWords (if k / 64 = 0 then x.lo else x.hi) := by
    rw [← Halves.chunks_getElem x _ hj, Vector.getElem_flatten]
    simp [Nat.mod_eq_of_lt hj]
  have hword : (if k / 64 = 0 then x.lo else x.hi)[k % 64 / 4] = x.toWords[k / 4] := by
    split
    · rw [Halves.toWords, Vector.getElem_append_left (by omega)]
      congr 1
      omega
    · rw [Halves.toWords, Vector.getElem_append_right (by omega) (by omega)]
      congr 1
      omega
  have hbyte : k % 64 % 4 = k % 4 := Nat.mod_mod_of_dvd k (by decide)
  simp only [Bytes.ofLittleEndianWords, Vector.getElem_ofFn, Vector.getElem_flatten, hchunk,
    Chunk.ofWords_getElem, hword, hbyte]

/-- What the table held before has no influence. -/
theorem derive_eq_hash {n size : Nat} (hpow : n.isPowerOfTwo) (hle : n ≤ UInt32.size) (hn : 0 < n)
    (h : 32 * n ≤ size) (password salt : Array UInt8) (scratch : Vector Word size) (length : Nat) :
    (derive password salt n h scratch length).1 =
      Standard.hash Nat.one_pos password salt hn 1 length := by
  have hmixed (words : Vector Word 32) :
      (#v[(Halves.ofWords words).chunks].map (Standard.mixWithTable Nat.one_pos hn)) =
        #v[(stirTable n h (fillTable n h (.ofWords words) scratch).1
          (fillTable n h (.ofWords words) scratch).2).chunks] := by
    rw [← mixWithTable_chunks hpow hle hn h]
    simp
  rw [Standard.hash, blocks_eq (KeyDerivation.derive password salt 128), hmixed, flatten_chunks]
  rfl

end Scrypt

/-! ## A table for each nonce -/

namespace Kernel

/-- One batch of the scrypt kernel, if it began each with a new table. -/
def freshBatch (base : Word) (count : Nat) (_ : count ≤ 1) (s : Unit × WorkItem) :
    (Unit × WorkItem) × Option (Fin count) :=
  let hash := Scrypt.hash (s.2.header.withNonce base).bytes
  let item := s.2.record base hash
  if h : 0 < count ∧ item.target.accepts hash = true then (((), item), some ⟨0, h.1⟩)
  else (((), item), none)

theorem freshBatch_eq (base : Word) (count : Nat) (h : count ≤ 1) (s : Unit) (table : Scrypt.Table)
    (item : WorkItem) :
    (scryptBatch base count h (table, item)).1.2 = (freshBatch base count h (s, item)).1.2 ∧
      (scryptBatch base count h (table, item)).2 = (freshBatch base count h (s, item)).2 := by
  have hhash := Scrypt.hashWith_fst table (item.header.withNonce base).bytes
  simp only [freshBatch, scryptBatch, ← hhash]
  split <;> exact ⟨rfl, rfl⟩

/-- A table that is used again and again makes no difference. -/
theorem run_scrypt_eq (item : WorkItem) (range : NonceRange) :
    Kernel.scrypt.run item range =
      runBatches 1 freshBatch range range.first (UInt32.le_refl _) range.ordered ((), item) :=
  runBatches_congr freshBatch_eq (UInt32.le_refl _) range.ordered () Scrypt.Table.empty item

end Kernel

/-! ## The specification -/

namespace Scrypt

open Standard

theorem ofWords_toWords (x : Halves) : Halves.ofWords x.toWords = x := by
  have hlo : (Halves.ofWords x.toWords).lo = x.lo := by
    ext i hi : 1
    simp only [Halves.ofWords, Halves.toWords, Vector.getElem_ofFn]
    exact Vector.getElem_append_left hi
  have hhi : (Halves.ofWords x.toWords).hi = x.hi := by
    ext i hi : 1
    simp only [Halves.ofWords, Halves.toWords, Vector.getElem_ofFn]
    rw [Vector.getElem_append_right (by omega) (by omega)]
    simp only [Nat.add_sub_cancel]
  cases x
  exact congrArg₂ Halves.mk hlo hhi

theorem cost_pos : 0 < cost := by decide

/-- The hash is the specified one for block size and parallelism one.  It is computed inside the table and
does not depend on what that held; so the kernel, which uses one table for all nonces, finds for each the
hash that a new table gives. -/
theorem agrees_with_standard {n size : Nat} (hpow : n.isPowerOfTwo) (hle : n ≤ UInt32.size)
    (hn : 0 < n) (h : 32 * n ≤ size) (password salt : Array UInt8) (scratch : Vector Word size)
    (length : Nat) :
    (∀ words : Vector Word 32, (Halves.ofWords (mixWithTable n h words scratch).1).chunks =
      Standard.mixWithTable Nat.one_pos hn (Halves.ofWords words).chunks) ∧
    (derive password salt n h scratch length).1 =
      Standard.hash Nat.one_pos password salt hn 1 length ∧
    Checked.derive password salt n scratch.toArray length =
      some ((derive password salt n h scratch length).1,
        (derive password salt n h scratch length).2.toArray) ∧
    (∀ (table : Table) (header : Bytes 80), (hashWith table header).1 = hash header ∧
      hash header = Standard.hash Nat.one_pos header.toArray header.toArray cost_pos 1 32) ∧
    ∀ item range, Kernel.scrypt.run item range = Kernel.runBatches 1 Kernel.freshBatch range
      range.first (UInt32.le_refl _) range.ordered ((), item) := by
  refine ⟨fun words ↦ ?_, derive_eq_hash hpow hle hn h password salt scratch length,
    Checked.derive_eq_some password salt n h scratch length, fun table header ↦
    ⟨hashWith_fst table header, ?_⟩, Kernel.run_scrypt_eq⟩
  · rw [mixWithTable_chunks hpow hle hn h, ← ofWords_toWords (stirTable n h _ _)]
    rfl
  · exact derive_eq_hash ⟨10, rfl⟩ (by decide) _ (Nat.le_refl _) _ _ Table.empty 32

theorem derive_sixteen_eq_hash :
    (16 : Nat).isPowerOfTwo ∧ 16 ≤ UInt32.size ∧ 0 < 16 ∧ 32 * 16 ≤ 512 ∧
      (derive #[] #[] 16 (Nat.le_refl 512) (Vector.replicate 512 0) 64).1 =
        Standard.hash Nat.one_pos #[] #[] (Nat.succ_pos 15) 1 64 :=
  ⟨⟨4, rfl⟩, by decide, by decide, by decide,
    (agrees_with_standard ⟨4, rfl⟩ (by decide) (Nat.succ_pos 15) (Nat.le_refl 512) #[] #[]
      (Vector.replicate 512 0) 64).2.1⟩

end Scrypt

end Hashwork
