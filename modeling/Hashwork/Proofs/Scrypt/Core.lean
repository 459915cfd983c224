import Hashwork.Proofs.Loop
import Hashwork.Proofs.Scrypt.Standard
import Hashwork.Proofs.Word
import Hashwork.Scrypt.Salsa
import Mathlib.Tactic.IntervalCases
import Mathlib.Tactic.Ring

/-!
# The core on words

The specified core reads sixteen words from a chunk of bytes, changes one of them at a time and writes them
out again.  Four assignments in a row are a quarter round, and sixteen the columns or the rows of the square.
-/

namespace Hashwork

namespace Word

theorem littleEndianByte_ofLittleEndian (b : Vector UInt8 4) (k : Nat) (hk : k < 4) :
    (ofLittleEndian b[0] b[1] b[2] b[3]).littleEndianByte ⟨k, hk⟩ = b[k] := by
  apply UInt8.toNat_inj.mp
  have h0 := b[0].toNat_lt
  have h1 := b[1].toNat_lt
  have h2 := b[2].toNat_lt
  have h3 := b[3].toNat_lt
  rw [toNat_littleEndianByte, ofLittleEndian, toNat_ofBigEndian, Nat.shiftRight_eq_div_pow]
  match k, hk with
  | 0, _ | 1, _ | 2, _ | 3, _ =>
    simp only [Nat.reduceMul, Nat.reducePow]
    omega

theorem littleEndianByte_xor (x y : Word) (k : Fin 4) :
    (x ^^^ y).littleEndianByte k = x.littleEndianByte k ^^^ y.littleEndianByte k := by
  apply UInt8.toNat_inj.mp
  simp only [toNat_littleEndianByte, UInt8.toNat_xor, UInt32.toNat_xor, Nat.shiftRight_xor_distrib]
  exact Nat.xor_mod_two_pow (n := 8)

end Word

namespace Scrypt.Standard

/-! ## Chunks and their words -/

namespace Chunk

theorem ofWords_getElem (s : Salsa.Square) (k : Nat) (hk : k < 64) :
    (ofWords s)[k] = s[k / 4].littleEndianByte ⟨k % 4, Nat.mod_lt _ (by decide)⟩ := by
  apply UInt8.toNat_inj.mp
  rw [Word.toNat_littleEndianByte]
  simp only [ofWords, Vector.getElem_ofFn]
  rw [Nat.toUInt8_eq, UInt8.toNat_ofNat']

theorem word_eq (b : Chunk) (i : Fin 16) :
    b.word i =
      Word.ofLittleEndian b[4 * i.val] b[4 * i.val + 1] b[4 * i.val + 2] b[4 * i.val + 3] := by
  have h0 := b[4 * i.val].toNat_lt
  have h1 := b[4 * i.val + 1].toNat_lt
  have h2 := b[4 * i.val + 2].toNat_lt
  have h3 := b[4 * i.val + 3].toNat_lt
  have hvalue : Bytes.value (Vector.ofFn fun k : Fin 4 ↦ b[4 * i.val + k.val]) =
      b[4 * i.val].toNat + 256 * (b[4 * i.val + 1].toNat + 256 * (b[4 * i.val + 2].toNat +
        256 * (b[4 * i.val + 3].toNat + 256 * 0))) := rfl
  apply UInt32.toNat_inj.mp
  rw [Word.ofLittleEndian, Word.toNat_ofBigEndian, word, hvalue, Nat.toUInt32_eq,
    UInt32.toNat_ofNat_of_lt' (by rw [UInt32.size]; omega)]
  omega

theorem word_ofWords (s : Salsa.Square) (i : Fin 16) : (ofWords s).word i = s[i] := by
  have hplace (c : Nat) (hc : c < 4) : (4 * i.val + c) / 4 = i.val ∧ (4 * i.val + c) % 4 = c := by
    omega
  have hfirst := hplace 0 (by decide)
  simp only [Nat.add_zero] at hfirst
  rw [word_eq]
  simp only [ofWords_getElem, hfirst, hplace 1 (by decide), hplace 2 (by decide),
    hplace 3 (by decide)]
  exact Word.ofBigEndian_bigEndianByte s[i]

theorem xor_ofWords (s t : Salsa.Square) :
    (ofWords s).xor (ofWords t) = ofWords (s.zipWith (· ^^^ ·) t) := by
  ext k hk : 1
  simp only [xor, Vector.getElem_zipWith, ofWords_getElem, Word.littleEndianByte_xor]

/-- The first word of a chunk is what is left of its number below `2 ^ 32`. -/
theorem value_mod (b : Chunk) : b.value % 2 ^ 32 = (b.word 0).toNat := by
  have h0 := b[0].toNat_lt
  have h1 := b[1].toNat_lt
  have h2 := b[2].toNat_lt
  have h3 := b[3].toNat_lt
  have htake : b.toList.take 4 = [b[0], b[1], b[2], b[3]] := by
    apply List.ext_getElem
    · simp
    · intro i hi hi'
      simp only [List.length_cons, List.length_nil] at hi'
      interval_cases i <;> simp
  let number (bytes : List UInt8) (rest : Nat) : Nat :=
    bytes.foldr (fun byte rest ↦ byte.toNat + 256 * rest) rest
  have hvalue : b.value = number [b[0], b[1], b[2], b[3]] (number (b.toList.drop 4) 0) := by
    calc
      b.value = number (b.toList.take 4 ++ b.toList.drop 4) 0 := by
        rw [List.take_append_drop]
        rfl
      _ = number [b[0], b[1], b[2], b[3]] (number (b.toList.drop 4) 0) := by
        rw [htake]
        rfl
  rw [word_eq, Word.ofLittleEndian, Word.toNat_ofBigEndian, hvalue]
  change number _ _ % 2 ^ 32 =
    256 * (256 * (256 * b[3].toNat + b[2].toNat) + b[1].toNat) + b[0].toNat
  simp only [number, List.foldr_cons, List.foldr_nil]
  omega

end Chunk

/-! ## Rounds -/

/-- What a quarter round assigns. -/
def quarter (a b c d : Fin 16) : List Assignment :=
  [⟨b, a, d, 7⟩, ⟨c, b, a, 9⟩, ⟨d, c, b, 13⟩, ⟨a, d, c, 18⟩]

def setFour (x : Salsa.Square) (a b c d : Fin 16) (y : Word × Word × Word × Word) : Salsa.Square :=
  (((x.set b y.2.1).set c y.2.2.1).set d y.2.2.2).set a y.1

theorem setFour_getElem (x : Salsa.Square) (a b c d : Fin 16) (y : Word × Word × Word × Word)
    (k : Fin 16) :
    (setFour x a b c d y)[k] =
      if a = k then y.1 else if d = k then y.2.2.2 else if c = k then y.2.2.1
        else if b = k then y.2.1 else x[k] := by
  simp only [setFour, Fin.getElem_fin, Vector.getElem_set, Fin.ext_iff]

theorem foldl_quarter (x : Salsa.Square) {a b c d : Fin 16} (h : [a, b, c, d].Nodup) :
    (quarter a b c d).foldl Assignment.apply x =
      setFour x a b c d (Salsa.quarterRound x[a] x[b] x[c] x[d]) := by
  have hval {i j : Fin 16} (h : i ≠ j) : i.val ≠ j.val := fun heq ↦ h (Fin.ext heq)
  simp only [List.nodup_cons, List.mem_cons, List.not_mem_nil, or_false, not_or] at h
  obtain ⟨⟨hab, hac, had⟩, ⟨hbc, hbd⟩, hcd, -⟩ := h
  simp only [quarter, List.foldl_cons, List.foldl_nil, Assignment.apply, setFour,
    Salsa.quarterRound, Fin.getElem_fin, Vector.getElem_set, (hval hab).symm, (hval hac).symm,
    (hval had).symm, hval hbc, (hval hbc).symm, hval hbd, hval hcd, (hval hcd).symm, if_true,
    if_false]

theorem setFour_columns (x : Salsa.Square) (p q r s : Word × Word × Word × Word) :
    setFour (setFour (setFour (setFour x 0 4 8 12 p) 5 9 13 1 q) 10 14 2 6 r) 15 3 7 11 s =
      #v[p.1, q.2.2.2, r.2.2.1, s.2.1, p.2.1, q.1, r.2.2.2, s.2.2.1,
        p.2.2.1, q.2.1, r.1, s.2.2.2, p.2.2.2, q.2.2.1, r.2.1, s.1] := by
  refine Vector.ext fun i hi ↦ ?_
  change (setFour _ _ _ _ _ _)[(⟨i, hi⟩ : Fin 16)] = _
  simp only [setFour_getElem]
  interval_cases i <;> rfl

theorem setFour_rows (x : Salsa.Square) (p q r s : Word × Word × Word × Word) :
    setFour (setFour (setFour (setFour x 0 1 2 3 p) 5 6 7 4 q) 10 11 8 9 r) 15 12 13 14 s =
      #v[p.1, p.2.1, p.2.2.1, p.2.2.2, q.2.2.2, q.1, q.2.1, q.2.2.1,
        r.2.2.1, r.2.2.2, r.1, r.2.1, s.2.1, s.2.2.1, s.2.2.2, s.1] := by
  refine Vector.ext fun i hi ↦ ?_
  change (setFour _ _ _ _ _ _)[(⟨i, hi⟩ : Fin 16)] = _
  simp only [setFour_getElem]
  interval_cases i <;> rfl

theorem foldl_columns (x : Salsa.Square) :
    (doubleRound.take 16).foldl Assignment.apply x = Salsa.columnRound x := by
  have hquarters : doubleRound.take 16 =
      quarter 0 4 8 12 ++ quarter 5 9 13 1 ++ quarter 10 14 2 6 ++ quarter 15 3 7 11 := rfl
  rw [hquarters]
  simp only [List.foldl_append]
  rw [foldl_quarter x (by decide), foldl_quarter _ (by decide), foldl_quarter _ (by decide),
    foldl_quarter _ (by decide)]
  -- No quarter round reads what another one of the four has written.
  simp only [setFour_getElem, Fin.reduceEq, if_false]
  exact setFour_columns _ _ _ _ _

theorem foldl_rows (x : Salsa.Square) :
    (doubleRound.drop 16).foldl Assignment.apply x = Salsa.rowRound x := by
  have hquarters : doubleRound.drop 16 =
      quarter 0 1 2 3 ++ quarter 5 6 7 4 ++ quarter 10 11 8 9 ++ quarter 15 12 13 14 := rfl
  rw [hquarters]
  simp only [List.foldl_append]
  rw [foldl_quarter x (by decide), foldl_quarter _ (by decide), foldl_quarter _ (by decide),
    foldl_quarter _ (by decide)]
  simp only [setFour_getElem, Fin.reduceEq, if_false]
  exact setFour_rows _ _ _ _ _

theorem foldl_doubleRound (x : Salsa.Square) :
    doubleRound.foldl Assignment.apply x = Salsa.rowRound (Salsa.columnRound x) := by
  calc
    doubleRound.foldl Assignment.apply x =
        (doubleRound.drop 16).foldl Assignment.apply
          ((doubleRound.take 16).foldl Assignment.apply x) := by
      rw [← List.foldl_append, List.take_append_drop]
    _ = Salsa.rowRound (Salsa.columnRound x) := by
      rw [foldl_columns, foldl_rows]

theorem core_ofWords (s : Salsa.Square) : core (.ofWords s) = .ofWords (Salsa.core s) := by
  have hwords : (Vector.ofFn (Chunk.ofWords s).word) = s := by
    ext i hi : 1
    rw [Vector.getElem_ofFn]
    exact Chunk.word_ofWords s ⟨i, hi⟩
  have hround : doubleRound.foldl Assignment.apply =
      fun y ↦ Salsa.rowRound (Salsa.columnRound y) := funext foldl_doubleRound
  simp only [core, Salsa.core, hwords, hround]
  apply congrArg
  ext i hi : 1
  simp only [Vector.getElem_zipWith]
  exact UInt32.add_comm _ _

end Scrypt.Standard

end Hashwork
