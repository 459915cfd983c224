import Hashwork.Proofs.Sha256.Midstate
import Hashwork.Proofs.Sha256.Standard

/-!
# Agreement with the specification

The compression function is the specified one: each function on words, the constants, the schedule, a round and
then all of them.  A message can be padded in one way only, which is the one used here, and so its digest is the
specified one.
-/

namespace Hashwork

theorem Word.toBitVec_rotateRight (x n : Word) (hpos : 0 < n.toNat) (hn : n.toNat < 32) :
    (x.rotateRight n).toBitVec = x.toBitVec.rotateRight n.toNat := by
  have hleft : (32 - n).toNat = 32 - n.toNat := UInt32.toNat_sub_of_le _ _ (Nat.le_of_lt hn)
  have hright : n.toNat % 32 = n.toNat := Nat.mod_eq_of_lt hn
  have hcount : (32 - n.toNat) % 32 = 32 - n.toNat := Nat.mod_eq_of_lt (by omega)
  rw [BitVec.rotateRight_def, hright]
  simp only [Word.rotateRight, UInt32.toBitVec_or, UInt32.toBitVec_shiftRight,
    UInt32.toBitVec_shiftLeft, BitVec.ushiftRight_eq', BitVec.shiftLeft_eq', BitVec.toNat_umod,
    UInt32.toNat_toBitVec, hleft]
  simp [hright, hcount]

/-- Strings of one length with the same value are the same. -/
theorem eq_of_bigEndianValue_eq {bs cs : List UInt8} (hlength : bs.length = cs.length)
    (h : bigEndianValue bs = bigEndianValue cs) : bs = cs := by
  induction bs generalizing cs with
  | nil => exact (List.length_eq_zero_iff.mp hlength.symm).symm
  | cons b bs ih =>
    obtain _ | ⟨c, cs⟩ := cs
    · cases hlength
    have hlength : bs.length = cs.length := Nat.succ.inj hlength
    have hbs := bigEndianValue_lt bs
    have hcs := bigEndianValue_lt cs
    simp only [bigEndianValue, ← hlength] at h hcs
    have hb : b.toNat = c.toNat := by
      have hdiv := congrArg (· / 256 ^ bs.length) h
      simpa only [Nat.mul_add_div (Nat.pow_pos (Nat.succ_pos 255)), Nat.div_eq_of_lt hbs,
        Nat.div_eq_of_lt hcs, Nat.mul_comm _ (256 ^ bs.length), Nat.add_zero] using hdiv
    rw [UInt8.toNat_inj.mp hb, ih hlength (by rw [hb] at h; omega)]

namespace Sha256

open Standard (Words Padded wordAt wordsOf)

/-- The registers as the specification numbers them. -/
def State.words (s : State) : Words :=
  ⟨s.a.toBitVec, s.b.toBitVec, s.c.toBitVec, s.d.toBitVec, s.e.toBitVec, s.f.toBitVec, s.g.toBitVec,
    s.h.toBitVec⟩

/-! ## Constants -/

def primes : Vector Nat 64 :=
  #v[2, 3, 5, 7, 11, 13, 17, 19, 23, 29, 31, 37, 41, 43, 47, 53, 59, 61, 67, 71, 73, 79, 83, 89, 97, 101, 103,
    107, 109, 113, 127, 131, 137, 139, 149, 151, 157, 163, 167, 173, 179, 181, 191, 193, 197, 199, 211, 223,
    227, 229, 233, 239, 241, 251, 257, 263, 269, 271, 277, 281, 283, 293, 307, 311]

/-- A number from 2 on that no smaller number below 18 divides, except 1. -/
def Undivided (n : Nat) : Prop := 2 ≤ n ∧ ∀ m < 18, 2 ≤ m → m < n → ¬ m ∣ n

instance : DecidablePred Undivided := fun n ↦
  inferInstanceAs (Decidable (2 ≤ n ∧ ∀ m < 18, 2 ≤ m → m < n → ¬ m ∣ n))

/-- A number below the square of 18 has a divisor below 18 if it has any. -/
theorem prime_iff_undivided {n : Nat} (h : n < 324) : n.Prime ↔ Undivided n := by
  constructor
  · intro hprime
    obtain ⟨htwo, hnot⟩ := Nat.prime_def_lt'.mp hprime
    exact ⟨htwo, fun m _ ↦ hnot m⟩
  · rintro ⟨htwo, hnot⟩
    refine Nat.prime_def_le_sqrt.mpr ⟨htwo, fun m hm hle ↦ ?_⟩
    have hsqrt : n.sqrt < 18 := Nat.sqrt_lt'.mpr h
    exact hnot m (hle.trans_lt hsqrt) hm (hle.trans_lt (Nat.sqrt_lt_self htwo))

theorem nth_prime {t : Nat} (ht : t < 64) : Nat.nth Nat.Prime t = primes[t] := by
  have htable : ∀ t, ∀ ht : t < 64, primes[t] < 324 ∧ Undivided primes[t] ∧
      Nat.count Undivided primes[t] = t := by
    decide +kernel
  obtain ⟨hlt, hundivided, hcount⟩ := htable t ht
  have hprime (n : Nat) (hn : n < primes[t]) := prime_iff_undivided (hn.trans hlt)
  have heq : Nat.count Nat.Prime primes[t] = t :=
    calc
      Nat.count Nat.Prime primes[t] = Nat.count Undivided primes[t] :=
        Nat.le_antisymm (Nat.count_mono_left fun n hn ↦ (hprime n hn).mp)
          (Nat.count_mono_left fun n hn ↦ (hprime n hn).mpr)
      _ = t := hcount
  calc
    Nat.nth Nat.Prime t = Nat.nth Nat.Prime (Nat.count Nat.Prime primes[t]) := by rw [heq]
    _ = primes[t] := Nat.nth_count ((prime_iff_undivided hlt).mpr hundivided)

theorem toBitVec_roundConstants {t : Nat} (ht : t < 64) :
    roundConstants[t].toBitVec = Standard.constant t := by
  have htable : ∀ t, ∀ ht : t < 64,
      roundConstants[t].toBitVec = Standard.rootBits 3 primes[t] := by
    decide +kernel
  rw [htable t ht, Standard.constant, nth_prime ht]

theorem words_initial : initial.words = Standard.initial := by
  simp only [Standard.initial, nth_prime, Nat.reduceLT]
  decide +kernel

/-! ## Functions on words -/

section Functions

variable (x y z : Word)

theorem toBitVec_choose :
    (choose x y z).toBitVec = Standard.choose x.toBitVec y.toBitVec z.toBitVec := rfl

theorem toBitVec_majority :
    (majority x y z).toBitVec = Standard.majority x.toBitVec y.toBitVec z.toBitVec := rfl

theorem toBitVec_bigSigma0 : (bigSigma0 x).toBitVec = Standard.bigSigma0 x.toBitVec := by
  have hrotate := x.toBitVec_rotateRight
  rw [bigSigma0, UInt32.toBitVec_xor, UInt32.toBitVec_xor, hrotate 2 (by decide) (by decide),
    hrotate 13 (by decide) (by decide), hrotate 22 (by decide) (by decide)]
  rfl

theorem toBitVec_bigSigma1 : (bigSigma1 x).toBitVec = Standard.bigSigma1 x.toBitVec := by
  have hrotate := x.toBitVec_rotateRight
  rw [bigSigma1, UInt32.toBitVec_xor, UInt32.toBitVec_xor, hrotate 6 (by decide) (by decide),
    hrotate 11 (by decide) (by decide), hrotate 25 (by decide) (by decide)]
  rfl

theorem toBitVec_smallSigma0 : (smallSigma0 x).toBitVec = Standard.smallSigma0 x.toBitVec := by
  have hrotate := x.toBitVec_rotateRight
  rw [smallSigma0, UInt32.toBitVec_xor, UInt32.toBitVec_xor, hrotate 7 (by decide) (by decide),
    hrotate 18 (by decide) (by decide)]
  rfl

theorem toBitVec_smallSigma1 : (smallSigma1 x).toBitVec = Standard.smallSigma1 x.toBitVec := by
  have hrotate := x.toBitVec_rotateRight
  rw [smallSigma1, UInt32.toBitVec_xor, UInt32.toBitVec_xor, hrotate 17 (by decide) (by decide),
    hrotate 19 (by decide) (by decide)]
  rfl

end Functions

/-! ## Compression -/

/-- The words of a block as the specification numbers them. -/
def Block.words (block : Block) (i : Fin 16) : BitVec 32 :=
  (block.get i).toBitVec

theorem toBitVec_schedule (block : Block) (t : Nat) (ht : t < 64) :
    (schedule block)[t].toBitVec = Standard.schedule block.words t := by
  induction t using Nat.strongRecOn with
  | ind t ih =>
    rw [Standard.schedule]
    by_cases hlt : t < 16
    · rw [dif_pos hlt, schedule_getElem_of_lt block t hlt ht]
      rfl
    · obtain ⟨k, rfl⟩ := Nat.exists_eq_add_of_le' (Nat.le_of_not_lt hlt)
      have hearlier (j : Nat) (hj : j < 16) :=
        ih (k + j) (Nat.add_lt_add_left hj k) (by omega)
      have hfirst : (schedule block)[k].toBitVec = Standard.schedule block.words k :=
        hearlier 0 (by decide)
      rw [dif_neg hlt, schedule_getElem_add block k ht]
      simp only [scheduleStep, UInt32.toBitVec_add, toBitVec_smallSigma0, toBitVec_smallSigma1]
      rw [hearlier 14 (by decide), hearlier 9 (by decide), hearlier 1 (by decide), hfirst]
      rfl

theorem words_round (s : State) (k w : Word) :
    (round s k w).words = Standard.round k.toBitVec w.toBitVec s.words := by
  simp only [round, Standard.round, State.words, UInt32.toBitVec_add, toBitVec_bigSigma0,
    toBitVec_bigSigma1, toBitVec_choose, toBitVec_majority]

theorem words_roundsTo (s : State) (block : Block) (t : Nat) (ht : t ≤ 64) :
    (roundsTo (schedule block) s t).words = Standard.rounds block.words s.words t := by
  induction t with
  | zero => rfl
  | succ t ih =>
    rw [roundsTo_succ _ _ _ ht, words_round, ih (Nat.le_of_lt ht), toBitVec_schedule block t ht,
      Standard.rounds_succ, ← toBitVec_roundConstants ht]

theorem words_compress (s : State) (block : Block) :
    (compress s block).words = Standard.compress s.words block.words := by
  have hadd (r : State) : State.words (s.zipWith (· + ·) r) = r.words.add s.words := by
    simp only [State.words, Words.add, Registers.zipWith, UInt32.toBitVec_add, BitVec.add_comm]
  rw [compress, hadd, words_roundsTo s block 64 (Nat.le_refl 64)]
  rfl

/-! ## Padding -/

theorem wordAt_toList (bytes : Array UInt8) (k : Nat) (h : k + 4 ≤ bytes.size) :
    wordAt bytes.toList k =
      (Word.ofBigEndian bytes[k] bytes[k + 1] bytes[k + 2] bytes[k + 3]).toBitVec := by
  have htake : (bytes.toList.drop k).take 4 = [bytes[k], bytes[k + 1], bytes[k + 2], bytes[k + 3]] := by
    rw [List.drop_eq_getElem_cons (by simp; omega), List.drop_eq_getElem_cons (by simp; omega),
      List.drop_eq_getElem_cons (by simp; omega), List.drop_eq_getElem_cons (by simp; omega)]
    simp
  have hvalue : bigEndianValue [bytes[k], bytes[k + 1], bytes[k + 2], bytes[k + 3]] =
      (Word.ofBigEndian bytes[k] bytes[k + 1] bytes[k + 2] bytes[k + 3]).toNat := by
    rw [Word.toNat_ofBigEndian]
    simp only [bigEndianValue, List.length_cons, List.length_nil]
    omega
  rw [wordAt, htake, hvalue]
  exact BitVec.ofNat_toNat ..

theorem words_blockAt (bytes : Array UInt8) (i : Nat) (h : 64 * i + 64 ≤ bytes.size) :
    (blockAt bytes i).words = fun j ↦ wordAt bytes.toList (64 * i + 4 * j.val) := by
  ext1 j
  have hj := j.isLt
  have hget (k : Nat) (hk : k < bytes.size) : bytes.getD k 0 = bytes[k] :=
    (Array.getElem_eq_getD 0).symm
  have hword : (blockAt bytes i).get j = Word.ofBigEndian (bytes.getD (64 * i + 4 * j.val) 0)
      (bytes.getD (64 * i + 4 * j.val + 1) 0) (bytes.getD (64 * i + 4 * j.val + 2) 0)
      (bytes.getD (64 * i + 4 * j.val + 3) 0) := Vector.getElem_ofFn hj
  rw [wordAt_toList bytes _ (by omega), Block.words, hword, hget _ (by omega), hget _ (by omega),
    hget _ (by omega), hget _ (by omega)]

theorem words_absorb_initial (bytes : Array UInt8) :
    (absorb initial bytes).words = Standard.hash bytes.toList := by
  have hblocks (n : Nat) (hn : n ≤ bytes.size / 64) :
      ((List.range n).foldl (fun s i ↦ compress s (blockAt bytes i)) initial).words =
        (List.range n).foldl (fun hash i ↦ Standard.compress hash fun j ↦
          wordAt bytes.toList (64 * i + 4 * j.val)) Standard.initial := by
    induction n with
    | zero => exact words_initial
    | succ n ih =>
      rw [List.range_succ, List.foldl_append, List.foldl_append, ← ih (Nat.le_of_succ_le hn)]
      simp only [List.foldl_cons, List.foldl_nil]
      rw [words_compress, words_blockAt bytes n (by omega)]
  rw [Standard.hash, Array.length_toList, ← hblocks _ (Nat.le_refl _)]
  rfl

@[simp]
theorem lengthField_size (n : Nat) : (lengthField n).size = 8 := by
  rw [lengthField, Array.size_ofFn]

theorem bigEndianValue_lengthField (n : Nat) (h : 8 * n < 2 ^ 64) :
    bigEndianValue (lengthField n).toList = 8 * n := by
  let digits : Bytes 8 := Vector.ofFn fun i ↦ (8 * n / 256 ^ i.val).toUInt8
  have hdigits : (lengthField n).toList = digits.toList.reverse := by
    apply List.ext_getElem
    · simp
    · intro i _ _
      rw [Array.getElem_toList, List.getElem_reverse]
      simp only [lengthField, Array.getElem_ofFn, digits, Vector.length_toList,
        Vector.getElem_toList, Vector.getElem_ofFn, Nat.shiftRight_eq_div_pow, pow_mul]
      rfl
  have hvalue : digits.value = 8 * n % 256 ^ 8 :=
    Bytes.value_eq_mod fun k hk ↦ by simp [digits]
  rw [hdigits, ← Bytes.value_eq_bigEndianValue, hvalue]
  exact Nat.mod_eq_of_lt h

theorem pad_toList (message : Array UInt8) :
    (pad message).toList =
      message.toList ++ 0x80 :: (List.replicate (zeroCount message.size) 0 ++
        (lengthField message.size).toList) := by
  simp [pad]

theorem padded_pad (message : Array UInt8) (h : 8 * message.size < 2 ^ 64) :
    Padded message.toList (pad message).toList where
  exists_zeros := by
    refine ⟨zeroCount message.size, (lengthField message.size).toList, pad_toList message, ?_, ?_, ?_⟩
    · exact Nat.mod_lt _ (by decide)
    · exact lengthField_size message.size
    · exact bigEndianValue_lengthField message.size h
  whole := by
    simp only [pad_toList, List.length_append, List.length_cons, List.length_replicate,
      Array.length_toList, lengthField_size, zeroCount]
    omega

/-- The length of a message fixes the zeros and the bytes after them. -/
theorem eq_pad_of_padded {message : Array UInt8} {padded : List UInt8}
    (h : Padded message.toList padded) : padded = (pad message).toList := by
  obtain ⟨⟨zeros, length, rfl, hzeros, hlength, hvalue⟩, hwhole⟩ := h
  rw [Array.length_toList] at hvalue
  have hlt : 8 * message.size < 2 ^ 64 := by
    have hlt := bigEndianValue_lt length
    rwa [hvalue, hlength] at hlt
  have hcount : zeros = zeroCount message.size := by
    simp only [List.length_append, List.length_cons, List.length_replicate, hlength,
      Array.length_toList] at hwhole
    rw [zeroCount]
    omega
  have hfield : length = (lengthField message.size).toList :=
    eq_of_bigEndianValue_eq (hlength.trans (lengthField_size _).symm)
      (hvalue.trans (bigEndianValue_lengthField _ hlt).symm)
  rw [pad_toList, hcount, hfield]

/-! ## The digest -/

theorem wordsOf_toBytes (s : State) : wordsOf s.toBytes.toList = s.words := by
  have hword (j : Nat) (hj : j < 8) : wordAt s.toBytes.toList (4 * j) = s.toVector[j].toBitVec := by
    have hbyte (c : Fin 4) := toBytes_getElem s j hj c
    have hat := wordAt_toList s.toBytes.toArray (4 * j) (by simp; omega)
    rw [Vector.toList, hat, ← Word.ofBigEndian_bigEndianByte s.toVector[j], ← hbyte 0, ← hbyte 1, ← hbyte 2,
      ← hbyte 3]
    rfl
  rw [wordsOf, State.words, Words.mk.injEq]
  exact ⟨hword 0 (by decide), hword 1 (by decide), hword 2 (by decide), hword 3 (by decide),
    hword 4 (by decide), hword 5 (by decide), hword 6 (by decide), hword 7 (by decide)⟩

/-- **The digest is the specified one.**  Its words are the hash value of the message, however the message is
padded. -/
theorem wordsOf_digest {message : Array UInt8} {padded : List UInt8}
    (h : Padded message.toList padded) : wordsOf (digest message).toList = Standard.hash padded := by
  rw [digest, wordsOf_toBytes, words_absorb_initial, eq_pad_of_padded h]

/-- So is the state that the double hash of a header ends in, though the midstate and the tail may be those of
another nonce. -/
theorem words_doubleHash (header : Header) (nonce : Word) {padded : List UInt8}
    (h : Padded (digest (header.withNonce nonce).bytes.toArray).toList padded) :
    (doubleHash header.midstate header.tail digestPad nonce).words = Standard.hash padded := by
  have hpadded := @eq_pad_of_padded (digest (header.withNonce nonce).bytes.toArray).toArray padded h
  rw [← absorb_pad_withNonce, words_absorb_initial, hpadded]
  rfl

end Sha256

end Hashwork
