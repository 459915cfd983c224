import Hashwork.Proofs.Header
import Hashwork.Sha256.Message

/-!
# Hashing a header by its midstate

A padded header is two blocks and a padded digest is one.  The first block of a header gives the midstate,
and the second is the tail; the block of a digest is its eight words with the padding of thirty-two bytes.
-/

namespace Hashwork.Sha256

/-- What is put after a message of this many bytes. -/
def padding (length : Nat) : Array UInt8 :=
  #[0x80] ++ Array.replicate (zeroCount length) 0 ++ lengthField length

theorem pad_eq (message : Array UInt8) : pad message = message ++ padding message.size := by
  simp only [pad, padding, Array.append_assoc]

theorem pad_getD_of_lt (message : Array UInt8) (k : Nat) (hk : k < message.size) :
    (pad message).getD k 0 = message[k] := by
  rw [pad_eq, Array.getD_eq_getD_getElem?, Array.getElem?_append_left hk,
    Array.getElem?_eq_getElem hk, Option.getD_some]

theorem pad_getD_add (message : Array UInt8) (k : Nat) :
    (pad message).getD (message.size + k) 0 = (padding message.size).getD k 0 := by
  rw [pad_eq, Array.getD_eq_getD_getElem?, Array.getElem?_append_right (by omega),
    Nat.add_sub_cancel_left, ← Array.getD_eq_getD_getElem?]

/-- The word in four bytes of the padding. -/
def paddingWord (length k : Nat) : Word :=
  Word.ofBigEndian ((padding length).getD k 0) ((padding length).getD (k + 1) 0)
    ((padding length).getD (k + 2) 0) ((padding length).getD (k + 3) 0)

theorem blockAt_pad_getElem_of_lt (message : Array UInt8) (i j : Nat) (hj : j < 16)
    (h : 64 * i + 4 * j + 4 ≤ message.size) :
    (blockAt (pad message) i)[j] =
      Word.ofBigEndian message[64 * i + 4 * j] message[64 * i + 4 * j + 1]
        message[64 * i + 4 * j + 2] message[64 * i + 4 * j + 3] := by
  simp only [blockAt, Vector.getElem_ofFn]
  rw [pad_getD_of_lt _ _ (by omega), pad_getD_of_lt _ _ (by omega), pad_getD_of_lt _ _ (by omega),
    pad_getD_of_lt _ _ (by omega)]

theorem blockAt_pad_getElem_add (message : Array UInt8) (i j k : Nat) (hj : j < 16)
    (h : 64 * i + 4 * j = message.size + k) :
    (blockAt (pad message) i)[j] = paddingWord message.size k := by
  simp only [blockAt, Vector.getElem_ofFn, h]
  simp only [Nat.add_assoc, pad_getD_add, paddingWord]

/-! ## Headers -/

theorem paddingWord_header : ∀ k < 12,
    paddingWord 80 (4 * k) = if k = 0 then 0x80000000 else if k = 11 then 640 else 0 := by
  decide

/-- The first block of a header gives the midstate. -/
theorem compress_blockAt_header_zero (header : Header) :
    compress initial (blockAt (pad header.bytes.toArray) 0) = header.midstate := by
  unfold Header.midstate
  apply congrArg
  ext j hj : 1
  have hsize := header.bytes.size_toArray
  rw [blockAt_pad_getElem_of_lt _ 0 j hj (by omega), Vector.getElem_ofFn]
  simp only [Nat.mul_zero, Nat.zero_add, Vector.getElem_toArray, Bytes.word]

theorem blockAt_header_one (header : Header) :
    blockAt (pad header.bytes.toArray) 1 = header.tail := by
  ext j hj : 1
  have hsize := header.bytes.size_toArray
  by_cases hlt : j < 4
  · rw [blockAt_pad_getElem_of_lt _ 1 j hj (by omega), header.tail_getElem_of_lt j hlt]
    simp only [Nat.mul_one, Vector.getElem_toArray, Bytes.word]
  · obtain ⟨k, rfl⟩ : ∃ k, j = k + 4 := ⟨j - 4, by omega⟩
    rw [blockAt_pad_getElem_add _ 1 (k + 4) (4 * k) hj (by omega), hsize,
      paddingWord_header k (by omega), header.tail_getElem_add k (by omega)]

/-- The state after a header, from its midstate and its tail. -/
theorem absorb_pad_header (header : Header) :
    absorb initial (pad header.bytes.toArray) = compress header.midstate header.tail := by
  have hsize : (pad header.bytes.toArray).size / 64 = 2 := by
    rw [pad_eq, Array.size_append, header.bytes.size_toArray]
    decide
  have hrange : List.range 2 = [0, 1] := by decide
  calc
    absorb initial (pad header.bytes.toArray) =
        compress (compress initial (blockAt (pad header.bytes.toArray) 0))
          (blockAt (pad header.bytes.toArray) 1) := by
      unfold absorb
      rw [hsize, hrange, List.foldl_cons, List.foldl_cons, List.foldl_nil]
    _ = compress header.midstate header.tail := by
      rw [compress_blockAt_header_zero, blockAt_header_one]

/-! ## Digests -/

theorem paddingWord_digest : ∀ k (hk : k < 8), paddingWord 32 (4 * k) = digestPad[k] := by
  decide

theorem toBytes_getElem (s : State) (j : Nat) (hj : j < 8) (c : Fin 4) :
    s.toBytes[4 * j + c.val] = s.toVector[j].bigEndianByte c := by
  have hdiv : (4 * j + c.val) / 4 = j := by omega
  have hmod : (4 * j + c.val) % 4 = c.val := by omega
  simp only [State.toBytes, Bytes.ofWords, Vector.getElem_ofFn, hdiv, hmod]

theorem blockAt_digest (s : State) :
    blockAt (pad s.toBytes.toArray) 0 = s.toVector ++ digestPad := by
  ext j hj : 1
  have hsize := s.toBytes.size_toArray
  by_cases hlt : j < 8
  · have h (c : Fin 4) := toBytes_getElem s j hlt c
    rw [blockAt_pad_getElem_of_lt _ 0 j hj (by omega), Vector.getElem_append_left hlt,
      ← Word.ofBigEndian_bigEndianByte s.toVector[j], ← h 0, ← h 1, ← h 2, ← h 3]
    simp only [Nat.mul_zero, Nat.zero_add, Vector.getElem_toArray]
    rfl
  · obtain ⟨k, rfl⟩ : ∃ k, j = k + 8 := ⟨j - 8, by omega⟩
    rw [blockAt_pad_getElem_add _ 0 (k + 8) (4 * k) hj (by omega), hsize,
      paddingWord_digest k (by omega), Vector.getElem_append_right hj (by omega)]
    simp only [Nat.add_sub_cancel]

theorem absorb_pad_digest (s : State) :
    absorb initial (pad s.toBytes.toArray) = compress initial (s.toVector ++ digestPad) := by
  have hsize : (pad s.toBytes.toArray).size / 64 = 1 := by
    rw [pad_eq, Array.size_append, s.toBytes.size_toArray]
    decide
  have hrange : List.range 1 = [0] := by decide
  unfold absorb
  rw [hsize, hrange, List.foldl_cons, List.foldl_nil, blockAt_digest]

/-- The final state of the double hash of a header with a nonce, from the midstate and the tail of any header
that differs in the nonce alone. -/
theorem absorb_pad_withNonce (header : Header) (nonce : Word) :
    absorb initial (pad (absorb initial
        (pad (header.withNonce nonce).bytes.toArray)).toBytes.toArray) =
      doubleHash header.midstate header.tail digestPad nonce := by
  rw [absorb_pad_digest, absorb_pad_header, Header.midstate_withNonce, Header.tail_withNonce]
  rfl

theorem doubleDigest_withNonce (header : Header) (nonce : Word) :
    doubleDigest (header.withNonce nonce).bytes.toArray =
      (doubleHash header.midstate header.tail digestPad nonce).toBytes := by
  rw [← absorb_pad_withNonce]
  rfl

end Hashwork.Sha256
