import Hashwork.Bytes
import Mathlib.Tactic.Ring

/-!
# Bytes as digits

A number and its bytes determine each other, whichever end is written first: each byte is a digit in base 256,
found by a division and a remainder.
-/

namespace Hashwork

/-! ## Most significant byte first -/

/-- The number in bytes given most significant first. -/
def bigEndianValue : List UInt8 → Nat
  | [] => 0
  | b :: bs => b.toNat * 256 ^ bs.length + bigEndianValue bs

theorem bigEndianValue_lt (bs : List UInt8) : bigEndianValue bs < 256 ^ bs.length := by
  induction bs with
  | nil => simp [bigEndianValue]
  | cons b bs ih =>
    have hb : b.toNat + 1 ≤ 256 := b.toNat_lt
    calc
      bigEndianValue (b :: bs) < b.toNat * 256 ^ bs.length + 256 ^ bs.length := by
        simp only [bigEndianValue]
        omega
      _ = (b.toNat + 1) * 256 ^ bs.length := by ring
      _ ≤ 256 * 256 ^ bs.length := Nat.mul_le_mul_right _ hb
      _ = 256 ^ (b :: bs).length := by rw [List.length_cons, pow_succ']

theorem bigEndianValue_append (bs cs : List UInt8) :
    bigEndianValue (bs ++ cs) = bigEndianValue bs * 256 ^ cs.length + bigEndianValue cs := by
  induction bs with
  | nil => simp [bigEndianValue]
  | cons b bs ih =>
    simp only [List.cons_append, bigEndianValue, ih, List.length_append]
    ring

theorem bigEndianValue_append_div (bs cs : List UInt8) :
    bigEndianValue (bs ++ cs) / 256 ^ cs.length = bigEndianValue bs := by
  rw [bigEndianValue_append, Nat.mul_comm, Nat.mul_add_div (Nat.pow_pos (by decide)),
    Nat.div_eq_of_lt (bigEndianValue_lt cs), Nat.add_zero]

/-! ## Least significant byte first -/

theorem foldr_eq_mod {digits : List UInt8} {x : Nat}
    (h : ∀ k, ∀ hk : k < digits.length, digits[k].toNat = x / 256 ^ k % 256) :
    digits.foldr (fun byte rest ↦ byte.toNat + 256 * rest) 0 = x % 256 ^ digits.length := by
  induction digits generalizing x with
  | nil => simp [Nat.mod_one]
  | cons byte digits ih =>
    have hbyte : byte.toNat = x % 256 := by simpa using h 0 (Nat.succ_pos _)
    have hdigits := @ih (x / 256) fun k hk ↦ by
      rw [Nat.div_div_eq_div_mul, ← pow_succ']
      exact h (k + 1) (Nat.succ_lt_succ hk)
    rw [List.foldr_cons, hdigits, hbyte, List.length_cons, pow_succ', Nat.mod_mul]

theorem foldr_div_pow_mod (digits : List UInt8) {k : Nat} (hk : k < digits.length) :
    digits.foldr (fun byte rest ↦ byte.toNat + 256 * rest) 0 / 256 ^ k % 256 = digits[k].toNat := by
  induction digits generalizing k with
  | nil => cases hk
  | cons byte digits ih =>
    have hbyte : byte.toNat < 256 := byte.toNat_lt
    rw [List.foldr_cons]
    cases k with
    | zero =>
      rw [pow_zero, Nat.div_one, Nat.add_mul_mod_self_left, Nat.mod_eq_of_lt hbyte]
      rfl
    | succ k =>
      rw [pow_succ', ← Nat.div_div_eq_div_mul, Nat.add_mul_div_left _ _ (by decide),
        Nat.div_eq_of_lt hbyte, Nat.zero_add]
      exact ih (Nat.lt_of_succ_lt_succ hk)

/-- What is above a digit makes no difference to it. -/
theorem pow_mul_add_div_pow_mod (base : Nat) {place places : Nat} (hbase : 0 < base)
    (h : place < places) (m n : Nat) :
    (base ^ places * m + n) / base ^ place % base = n / base ^ place % base := by
  obtain ⟨rest, rfl⟩ := Nat.exists_eq_add_of_lt h
  have hsplit : base ^ (place + rest + 1) * m + n = n + base ^ place * (base * (base ^ rest * m)) := by
    ring
  rw [hsplit, Nat.add_mul_div_left _ _ (Nat.pow_pos hbase), Nat.add_mul_mod_self_left]

namespace Bytes

variable {n : Nat}

/-- Bytes that are the digits of a number hold as much of it as there is room for. -/
theorem value_eq_mod {bytes : Bytes n} {x : Nat}
    (h : ∀ k, ∀ hk : k < n, bytes[k].toNat = x / 256 ^ k % 256) : bytes.value = x % 256 ^ n := by
  have hlength : bytes.toList.length = n := bytes.length_toList
  calc
    bytes.value = x % 256 ^ bytes.toList.length :=
      foldr_eq_mod fun k hk ↦ by simpa using h k (hlength ▸ hk)
    _ = x % 256 ^ n := by rw [hlength]

/-- And each byte is the digit in its place. -/
theorem value_div_pow_mod (bytes : Bytes n) {k : Nat} (hk : k < n) :
    bytes.value / 256 ^ k % 256 = bytes[k].toNat := by
  have hlt : k < bytes.toList.length := bytes.length_toList.symm ▸ hk
  exact (foldr_div_pow_mod bytes.toList hlt).trans (by simp)

theorem value_eq_bigEndianValue (bytes : Bytes n) :
    bytes.value = bigEndianValue bytes.toList.reverse := by
  unfold value
  induction bytes.toList with
  | nil => rfl
  | cons b bs ih =>
    rw [List.foldr_cons, ih, List.reverse_cons, bigEndianValue_append]
    simp only [bigEndianValue, List.length_nil, List.length_singleton, pow_zero, pow_one]
    omega

theorem value_lt (bytes : Bytes n) : bytes.value < 256 ^ n := by
  have hlt := bigEndianValue_lt bytes.toList.reverse
  rwa [List.length_reverse, Vector.length_toList, ← value_eq_bigEndianValue] at hlt

end Bytes

end Hashwork
