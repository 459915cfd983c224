import Hashwork.Proofs.Bytes
import Hashwork.Proofs.Word
import Hashwork.Proofs.Sha256.Midstate
import Hashwork.Target

/-!
# Acceptance is the order of numbers

A target and a hash are compared byte by byte from the most significant one on.  That is the order of the
numbers they hold.  So a hash whose top word is above that of the target cannot be accepted, and the test on
the last word of a final state lets every accepted hash through; where that word differs from the target's,
nothing else is needed.
-/

namespace Hashwork

/-- Where the leading digits differ, they decide. -/
theorem mul_add_lt_of_lt {x y a b n : Nat} (h : x < y) (ha : a < n) : x * n + a < y * n + b := by
  calc
    x * n + a < x * n + n := Nat.add_lt_add_left ha _
    _ = (x + 1) * n := (Nat.succ_mul x n).symm
    _ ≤ y * n := Nat.mul_le_mul_right n h
    _ ≤ y * n + b := Nat.le_add_right _ _

/-- The first byte in which two strings differ decides. -/
theorem Target.atMost_iff {xs ys : List UInt8} (h : xs.length = ys.length) :
    atMost xs ys = true ↔ bigEndianValue xs ≤ bigEndianValue ys := by
  induction xs generalizing ys with
  | nil =>
    cases ys with
    | nil => simp [atMost]
    | cons y ys => simp at h
  | cons x xs ih =>
    cases ys with
    | nil => simp at h
    | cons y ys =>
      have hlength : xs.length = ys.length := by simpa using h
      have hx := bigEndianValue_lt xs
      have hy := bigEndianValue_lt ys
      rw [hlength] at hx
      simp only [atMost, bigEndianValue, hlength]
      split
      · rename_i heq
        subst heq
        rw [ih hlength]
        omega
      · rename_i hne
        have hne' : x.toNat ≠ y.toNat := fun heq ↦ hne (UInt8.toNat_inj.mp heq)
        rw [decide_eq_true_iff, UInt8.lt_iff_toNat_lt]
        constructor
        · intro hlt
          exact Nat.le_of_lt (mul_add_lt_of_lt hlt hx)
        · intro hle
          by_contra hnot
          have hgt : y.toNat < x.toNat := Nat.lt_of_le_of_ne (Nat.le_of_not_lt hnot) (Ne.symm hne')
          exact absurd hle (Nat.not_le_of_lt (mul_add_lt_of_lt hgt hy))

namespace Target

theorem accepts_iff (target : Target) (hash : Digest) :
    target.accepts hash = true ↔ hash.value ≤ target.bytes.value := by
  rw [accepts, atMost_iff (by simp), Bytes.value_eq_bigEndianValue, Bytes.value_eq_bigEndianValue]

/-- The top word is the four most significant of the thirty-two bytes. -/
theorem toNat_topWord (target : Target) :
    target.topWord.toNat = target.bytes.value / 256 ^ 28 := by
  obtain ⟨bytes⟩ := target
  have hsplit : bytes.toList.reverse =
      [bytes[31], bytes[30], bytes[29], bytes[28]] ++ (bytes.toList.take 28).reverse := by
    have hdrop : bytes.toList.drop 28 = [bytes[28], bytes[29], bytes[30], bytes[31]] := by
      apply List.ext_getElem
      · simp
      · intro i hi hi'
        simp only [List.length_cons, List.length_nil] at hi'
        match i, hi' with
        | 0, _ | 1, _ | 2, _ | 3, _ => simp
    conv_lhs => rw [← List.take_append_drop 28 bytes.toList]
    rw [List.reverse_append, hdrop]
    rfl
  have hlength : (bytes.toList.take 28).reverse.length = 28 := by simp
  symm
  calc
    bytes.value / 256 ^ 28 =
        bigEndianValue ([bytes[31], bytes[30], bytes[29], bytes[28]] ++
          (bytes.toList.take 28).reverse) / 256 ^ (bytes.toList.take 28).reverse.length := by
      rw [Bytes.value_eq_bigEndianValue, hsplit, hlength]
    _ = bigEndianValue [bytes[31], bytes[30], bytes[29], bytes[28]] := bigEndianValue_append_div _ _
    _ = (Word.ofBigEndian bytes[31] bytes[30] bytes[29] bytes[28]).toNat := by
      rw [Word.toNat_ofBigEndian]
      simp only [bigEndianValue, List.length_cons, List.length_nil]
      omega
    _ = (topWord ⟨bytes⟩).toNat := rfl

/-- Of a hash that is accepted, the top word is at most that of the target. -/
theorem topWord_le_of_accepts {target : Target} {hash : Digest} (h : target.accepts hash = true) :
    topWord ⟨hash⟩ ≤ target.topWord := by
  rw [UInt32.le_iff_toNat_le, toNat_topWord, toNat_topWord]
  exact Nat.div_le_div_right ((accepts_iff target hash).mp h)

/-- The last word of a final state has the bytes of the top word of the hash. -/
theorem topWord_toBytes (s : Sha256.State) : topWord ⟨s.toBytes⟩ = s.h.reverseBytes := by
  have hbyte (c : Fin 4) : s.toBytes[28 + c.val] = s.h.bigEndianByte c :=
    Sha256.toBytes_getElem s 7 (by omega) c
  calc
    topWord ⟨s.toBytes⟩ = Word.ofBigEndian (s.h.bigEndianByte 3) (s.h.bigEndianByte 2)
        (s.h.bigEndianByte 1) (s.h.bigEndianByte 0) := by
      rw [← hbyte 0, ← hbyte 1, ← hbyte 2, ← hbyte 3]
      rfl
    _ = s.h.reverseBytes := s.h.ofBigEndian_littleEndianByte

theorem mayBeAccepted_eq (target : Target) (s : Sha256.State) :
    Sha256.mayBeAccepted s.h target.topWord = decide (topWord ⟨s.toBytes⟩ ≤ target.topWord) := by
  rw [topWord_toBytes, Sha256.mayBeAccepted]

theorem mayBeAccepted_of_accepts {target : Target} {s : Sha256.State}
    (h : target.accepts s.toBytes = true) : Sha256.mayBeAccepted s.h target.topWord = true := by
  rw [mayBeAccepted_eq, decide_eq_true_iff]
  exact topWord_le_of_accepts h

/-- A smaller top word outweighs all that is below it. -/
theorem accepts_of_topWord_lt {target : Target} {hash : Digest} (h : topWord ⟨hash⟩ < target.topWord) :
    target.accepts hash = true := by
  rw [UInt32.lt_iff_toNat_lt, toNat_topWord, toNat_topWord] at h
  rw [accepts_iff]
  exact Nat.le_of_lt (Nat.lt_of_div_lt_div h)

/-- Acceptance is the order of the numbers, so it is kept by a greater target and by a smaller hash.  The test
on the last word of a final state passes every accepted hash, and its answer is final unless that word is the
target's. -/
theorem accepts_in_order :
    (∀ (target : Target) (hash : Digest),
      target.accepts hash = true ↔ hash.value ≤ target.bytes.value) ∧
    (∀ (target greater : Target) (hash smaller : Digest), target.bytes.value ≤ greater.bytes.value →
      smaller.value ≤ hash.value → target.accepts hash = true → greater.accepts smaller = true) ∧
    ∀ (target : Target) (s : Sha256.State),
      (target.accepts s.toBytes = true → Sha256.mayBeAccepted s.h target.topWord = true) ∧
      (s.h.reverseBytes < target.topWord → target.accepts s.toBytes = true) ∧
      (s.h.reverseBytes ≠ target.topWord →
        target.accepts s.toBytes = Sha256.mayBeAccepted s.h target.topWord) := by
  refine ⟨accepts_iff, ?_, fun target s ↦ ?_⟩
  · intro target greater hash smaller htarget hhash haccepts
    rw [accepts_iff] at haccepts ⊢
    exact (hhash.trans haccepts).trans htarget
  · have hless (h : s.h.reverseBytes < target.topWord) : target.accepts s.toBytes = true := by
      rw [← topWord_toBytes] at h
      exact accepts_of_topWord_lt h
    refine ⟨mayBeAccepted_of_accepts, hless, fun hne ↦ ?_⟩
    rw [Bool.eq_iff_iff]
    refine ⟨mayBeAccepted_of_accepts, fun hpasses ↦ ?_⟩
    rw [Sha256.mayBeAccepted, decide_eq_true_iff] at hpasses
    exact hless (UInt32.lt_of_le_of_ne hpasses hne)

/-- The state in which every hash starts, against a target of half the range. -/
theorem accepts_initial :
    Sha256.initial.h.reverseBytes < (ofCompact 0x207fffff).topWord ∧
      (ofCompact 0x207fffff).accepts Sha256.initial.toBytes = true ∧
      max.accepts Sha256.initial.toBytes = true ∧
      Sha256.mayBeAccepted Sha256.initial.h (ofCompact 0x207fffff).topWord = true ∧
      (ofCompact 0x207fffff).accepts Sha256.initial.toBytes =
        Sha256.mayBeAccepted Sha256.initial.h (ofCompact 0x207fffff).topWord := by
  obtain ⟨-, hordered, hdecided⟩ := accepts_in_order
  obtain ⟨hpasses, hless, hfinal⟩ := hdecided (ofCompact 0x207fffff) Sha256.initial
  have hlt : Sha256.initial.h.reverseBytes < (ofCompact 0x207fffff).topWord := by decide
  have haccepts := hless hlt
  have hmax := hordered (ofCompact 0x207fffff) max Sha256.initial.toBytes Sha256.initial.toBytes
    (by decide) (Nat.le_refl _) haccepts
  exact ⟨hlt, haccepts, hmax, hpasses haccepts, hfinal (by decide)⟩

end Target

end Hashwork
