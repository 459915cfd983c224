import Hashwork.Header
import Hashwork.Proofs.Sha256.Schedule
import Hashwork.Proofs.Word

/-!
# Headers with another nonce

The nonce takes the last four bytes of a header and nothing else.  So a later nonce replaces an earlier one,
the midstate is the same for all of them, and in the tail block only the word of the nonce differs.
-/

namespace Hashwork.Header

variable (header : Header) (nonce : Word)

theorem withNonce_getElem_of_lt (k : Nat) (hk : k < 76) :
    (header.withNonce nonce).bytes[k] = header.bytes[k] := by
  simp only [withNonce]
  rw [Vector.getElem_set_ne _ _ (by omega), Vector.getElem_set_ne _ _ (by omega),
    Vector.getElem_set_ne _ _ (by omega), Vector.getElem_set_ne _ _ (by omega)]

theorem withNonce_getElem_add (c : Fin 4) :
    (header.withNonce nonce).bytes[76 + c.val] = nonce.littleEndianByte c := by
  obtain ⟨c, hc⟩ := c
  simp only [withNonce, Vector.getElem_set]
  match c, hc with
  | 0, _ | 1, _ | 2, _ | 3, _ => simp

/-- Two headers that agree before the nonce become equal when they are given the same one. -/
theorem withNonce_congr {header other : Header}
    (h : ∀ k (hk : k < 76), header.bytes[k] = other.bytes[k]) :
    header.withNonce nonce = other.withNonce nonce := by
  have hbytes : (header.withNonce nonce).bytes = (other.withNonce nonce).bytes := by
    ext k hk : 1
    by_cases hlt : k < 76
    · rw [withNonce_getElem_of_lt _ _ k hlt, withNonce_getElem_of_lt _ _ k hlt, h k hlt]
    · obtain ⟨c, rfl⟩ : ∃ c : Fin 4, k = 76 + c.val := ⟨⟨k - 76, by omega⟩, by simp; omega⟩
      rw [withNonce_getElem_add, withNonce_getElem_add]
  exact congrArg Header.mk hbytes

@[simp]
theorem withNonce_withNonce (later : Word) :
    (header.withNonce nonce).withNonce later = header.withNonce later :=
  withNonce_congr later (header.withNonce_getElem_of_lt nonce)

theorem word_withNonce (k : Nat) (hk : k + 4 ≤ 76) :
    (header.withNonce nonce).bytes.word k = header.bytes.word k := by
  simp only [Bytes.word]
  rw [withNonce_getElem_of_lt _ _ k (by omega), withNonce_getElem_of_lt _ _ (k + 1) (by omega),
    withNonce_getElem_of_lt _ _ (k + 2) (by omega), withNonce_getElem_of_lt _ _ (k + 3) (by omega)]

/-- The bytes of the nonce are least significant first, and words are read most significant first. -/
theorem word_nonce_withNonce (hword : 76 + 4 ≤ 80) :
    (header.withNonce nonce).bytes.word 76 hword = nonce.reverseBytes := by
  have h (c : Fin 4) := header.withNonce_getElem_add nonce c
  calc
    (header.withNonce nonce).bytes.word 76 hword =
        Word.ofBigEndian (nonce.littleEndianByte 0) (nonce.littleEndianByte 1)
          (nonce.littleEndianByte 2) (nonce.littleEndianByte 3) := by
      rw [← h 0, ← h 1, ← h 2, ← h 3]
      rfl
    _ = nonce.reverseBytes := nonce.ofBigEndian_littleEndianByte

@[simp]
theorem nonce_withNonce : (header.withNonce nonce).nonce = nonce := by
  have h (c : Fin 4) := header.withNonce_getElem_add nonce c
  calc
    (header.withNonce nonce).nonce =
        Word.ofLittleEndian (nonce.littleEndianByte 0) (nonce.littleEndianByte 1)
          (nonce.littleEndianByte 2) (nonce.littleEndianByte 3) := by
      rw [← h 0, ← h 1, ← h 2, ← h 3]
      rfl
    _ = nonce := nonce.ofBigEndian_bigEndianByte

@[simp]
theorem midstate_withNonce : (header.withNonce nonce).midstate = header.midstate := by
  have hblock (i : Fin 16) :
      (header.withNonce nonce).bytes.word (4 * i.val) = header.bytes.word (4 * i.val) :=
    header.word_withNonce nonce (4 * i.val) (by omega)
  simp only [midstate, hblock]

/-- The tail begins with the last four words of the header. -/
theorem tail_getElem_of_lt (k : Nat) (hk : k < 4) :
    header.tail[k] = header.bytes.word (64 + 4 * k) := by
  match k, hk with
  | 0, _ | 1, _ | 2, _ | 3, _ => rfl

/-- The padding of a message of eighty bytes. -/
theorem tail_getElem_add (k : Nat) (hk : k < 12) :
    header.tail[k + 4] = if k = 0 then 0x80000000 else if k = 11 then 640 else 0 := by
  match k, hk with
  | 0, _ | 1, _ | 2, _ | 3, _ | 4, _ | 5, _ | 6, _ | 7, _ | 8, _ | 9, _ | 10, _ | 11, _ => rfl

theorem tail_withNonce :
    (header.withNonce nonce).tail = Sha256.withNonceWord header.tail nonce := by
  ext k hk : 1
  rw [Sha256.withNonceWord_getElem _ _ k hk]
  by_cases hlt : k < 4
  · rw [tail_getElem_of_lt _ k hlt, tail_getElem_of_lt _ k hlt]
    by_cases heq : k = 3
    · subst heq
      exact header.word_nonce_withNonce nonce (by omega)
    · rw [if_neg heq]
      exact header.word_withNonce nonce (64 + 4 * k) (by omega)
  · obtain ⟨j, rfl⟩ : ∃ j, k = j + 4 := ⟨k - 4, by omega⟩
    rw [if_neg (by omega), tail_getElem_add _ j (by omega), tail_getElem_add _ j (by omega)]

end Hashwork.Header
