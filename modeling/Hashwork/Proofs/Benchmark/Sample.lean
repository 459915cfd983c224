import Hashwork.Benchmark.Sample
import Hashwork.Proofs.Bytes
import Hashwork.Proofs.Loop
import Mathlib.Data.Set.Function

/-!
# What is left of a sample on its way between processes

The number of nonces arrives as it was sent.  So does the time, unless it takes more than 64 bits to count its
nanoseconds.  Every sixteen bytes are a message, and no two messages stand for the same sample.
-/

namespace Hashwork

theorem Duration.totalNanos_ofNanos {nanos : Nat} (h : nanos / 1000000000 < UInt64.size) :
    (ofNanos nanos).totalNanos = nanos := by
  have hseconds : (nanos / 1000000000).toUInt64.toNat = nanos / 1000000000 :=
    UInt64.toNat_ofNat_of_lt' h
  simp only [totalNanos, ofNanos, hseconds]
  exact Nat.div_add_mod' nanos 1000000000

theorem Duration.ofNanos_totalNanos (d : Duration) : ofNanos d.totalNanos = d := by
  obtain ⟨seconds, nanos⟩ := d
  have hwhole : (seconds.toNat * 1000000000 + nanos.val) / 1000000000 = seconds.toNat := by omega
  have hrest : (seconds.toNat * 1000000000 + nanos.val) % 1000000000 = nanos.val := by omega
  simp [ofNanos, totalNanos, hwhole, hrest]

/-- Two durations of as many nanoseconds are the same. -/
theorem Duration.totalNanos_inj {d e : Duration} : d.totalNanos = e.totalNanos ↔ d = e := by
  refine ⟨fun h ↦ ?_, fun h ↦ h ▸ rfl⟩
  rw [← ofNanos_totalNanos d, h, ofNanos_totalNanos]

theorem Duration.eq_zero_iff {d : Duration} : d = .zero ↔ d.totalNanos = 0 := by
  have hzero : zero.totalNanos = 0 := rfl
  rw [← totalNanos_inj, hzero]

namespace Sample

theorem toNat_littleEndianByte (x : UInt64) {i : Nat} (hi : i < 8) :
    (littleEndianByte x i).toNat = x.toNat / 256 ^ i % 256 := by
  have hshift : (8 * i).toUInt64.toNat % 64 = 8 * i := by
    rw [Nat.toUInt64_eq, UInt64.toNat_ofNat_of_lt' (by rw [UInt64.size]; omega)]
    omega
  rw [littleEndianByte, UInt64.toNat_toUInt8, UInt64.toNat_shiftRight, hshift,
    Nat.shiftRight_eq_div_pow, Nat.pow_mul]

/-- Byte `i` of a number, above bytes that make up a number below `2 ^ (8 * i)`. -/
theorem toNat_or_littleEndianByte (x y : UInt64) {i : Nat} (hi : i < 8)
    (hy : y.toNat = x.toNat % 2 ^ (8 * i)) :
    (y ||| (littleEndianByte x i).toUInt64 <<< (8 * i).toUInt64).toNat =
      x.toNat % 2 ^ (8 * (i + 1)) := by
  have hlt : 8 * i < 64 := by omega
  have hshift : (8 * i).toUInt64.toNat = 8 * i :=
    UInt64.toNat_ofNat_of_lt' (Nat.lt_trans hlt (by decide))
  have hmod : 8 * i % 64 = 8 * i := Nat.mod_eq_of_lt hlt
  have hpow : 2 ^ (8 * (i + 1)) = 2 ^ (8 * i) * 2 ^ 8 := by
    rw [← pow_add]
    ring_nf
  have hbyte : (littleEndianByte x i).toNat = x.toNat / 2 ^ (8 * i) % 2 ^ 8 := by
    rw [toNat_littleEndianByte x hi, Nat.pow_mul]
    rfl
  have hlow : y.toNat < 2 ^ (8 * i) := hy ▸ Nat.mod_lt _ (Nat.two_pow_pos _)
  have hfits : (littleEndianByte x i).toNat <<< (8 * i) < 2 ^ 64 := by
    rw [Nat.shiftLeft_eq]
    calc
      _ < 2 ^ 8 * 2 ^ (8 * i) :=
        Nat.mul_lt_mul_of_pos_right (littleEndianByte x i).toNat_lt (Nat.two_pow_pos _)
      _ = 2 ^ (8 * (i + 1)) := by rw [hpow, Nat.mul_comm]
      _ ≤ 2 ^ 64 := Nat.pow_le_pow_right (by decide) (by omega)
  calc
    _ = y.toNat ||| (littleEndianByte x i).toNat <<< (8 * i) := by
      simp only [UInt64.toNat_or, UInt64.toNat_shiftLeft, UInt8.toNat_toUInt64, hshift, hmod,
        Nat.mod_eq_of_lt hfits]
    _ = (littleEndianByte x i).toNat <<< (8 * i) + y.toNat := by
      rw [Nat.or_comm, Nat.shiftLeft_add_eq_or_of_lt hlow]
    _ = x.toNat % 2 ^ (8 * (i + 1)) := by
      rw [hpow, Nat.mod_mul, Nat.shiftLeft_eq, hbyte, hy, Nat.mul_comm, Nat.add_comm]

/-- The number in eight bytes that are those of a number. -/
theorem littleEndianNumber_eq {bytes : Bytes 16} {start : Nat} {h : start + 8 ≤ 16} {x : UInt64}
    (hbytes : ∀ i, i < 8 → ∀ hlt : start + i < 16, bytes[start + i] = littleEndianByte x i) :
    littleEndianNumber bytes start h = x := by
  have hfold := fold_invariant (n := 8) (a := 0)
    (f := fun i _ (y : UInt64) ↦ y ||| (bytes[start + i].toUInt64 <<< (8 * i).toUInt64))
    (fun i y ↦ y.toNat = x.toNat % 2 ^ (8 * i)) (by simp [Nat.mod_one]) ?_
  · apply UInt64.toNat_inj.mp
    exact hfold.trans (Nat.mod_eq_of_lt x.toNat_lt)
  · intro i hi y hy
    rw [hbytes i hi (by omega)]
    exact toNat_or_littleEndianByte x y hi hy

theorem encode_getElem_of_lt (s : Sample) {i : Nat} (hi : i < 8) :
    s.encode[i] = littleEndianByte s.nonces i := by
  simp only [encode, Vector.getElem_ofFn, if_pos hi]

theorem encode_getElem_add (s : Sample) {i : Nat} (hi : i < 8) :
    s.encode[8 + i] = littleEndianByte s.nanosField i := by
  simp only [encode, Vector.getElem_ofFn, if_neg (Nat.not_lt.mpr (Nat.le_add_right 8 i)),
    Nat.add_sub_cancel_left]

theorem toNat_nanosField (s : Sample) :
    s.nanosField.toNat = min s.elapsed.totalNanos (UInt64.size - 1) :=
  UInt64.toNat_ofNat_of_lt' (Nat.lt_of_le_of_lt (Nat.min_le_right _ _) (by decide))

/-- What a sample becomes on its way. -/
def saturated (s : Sample) : Sample where
  nonces := s.nonces
  elapsed := .ofNanos (min s.elapsed.totalNanos (UInt64.size - 1))

theorem decode_encode (s : Sample) : decode s.encode = s.saturated := by
  have hnonces : littleEndianNumber s.encode 0 (by decide) = s.nonces :=
    littleEndianNumber_eq fun i hi _ ↦ by
      simp only [Nat.zero_add]
      exact s.encode_getElem_of_lt hi
  have hnanos : littleEndianNumber s.encode 8 (by decide) = s.nanosField :=
    littleEndianNumber_eq fun i hi _ ↦ s.encode_getElem_add hi
  rw [decode, hnonces, hnanos, toNat_nanosField, saturated]

theorem totalNanos_saturated (s : Sample) :
    s.saturated.elapsed.totalNanos = min s.elapsed.totalNanos (UInt64.size - 1) := by
  apply Duration.totalNanos_ofNanos
  calc
    _ ≤ min s.elapsed.totalNanos (UInt64.size - 1) := Nat.div_le_self _ _
    _ ≤ UInt64.size - 1 := Nat.min_le_right _ _
    _ < UInt64.size := by decide

/-! ## Messages -/

theorem size_eq_two_pow : UInt64.size = 2 ^ 64 := by norm_num

/-- The number read from eight bytes has these bytes. -/
theorem littleEndianByte_littleEndianNumber (bytes : Bytes 16) {start : Nat} (h : start + 8 ≤ 16)
    {i : Nat} (hi : i < 8) (hlt : start + i < 16) :
    littleEndianByte (littleEndianNumber bytes start h) i = bytes[start + i] := by
  let eight : Bytes 8 := Vector.ofFn fun i ↦ bytes[start + i.val]
  have hvalue : eight.value.toUInt64.toNat = eight.value :=
    UInt64.toNat_ofNat_of_lt' (eight.value_lt.trans_le (by decide))
  have hbyte : ∀ i, i < 8 → ∀ hlt : start + i < 16,
      bytes[start + i] = littleEndianByte eight.value.toUInt64 i := by
    intro i hi hlt
    apply UInt8.toNat_inj.mp
    calc
      bytes[start + i].toNat = eight[i].toNat := by rw [Vector.getElem_ofFn]
      _ = eight.value / 256 ^ i % 256 := (eight.value_div_pow_mod hi).symm
      _ = (littleEndianByte eight.value.toUInt64 i).toNat := by rw [toNat_littleEndianByte _ hi, hvalue]
  rw [littleEndianNumber_eq hbyte, hbyte i hi hlt]

theorem nanosField_decode (bytes : Bytes 16) (h : 8 + 8 ≤ 16) :
    (decode bytes).nanosField = littleEndianNumber bytes 8 h := by
  have hlt := (littleEndianNumber bytes 8 h).toNat_lt
  apply UInt64.toNat_inj.mp
  rw [toNat_nanosField, decode, Duration.totalNanos_ofNanos]
  · exact Nat.min_eq_left (Nat.le_sub_one_of_lt hlt)
  · exact Nat.lt_of_le_of_lt (Nat.div_le_self _ _) hlt

theorem encode_decode (bytes : Bytes 16) : (decode bytes).encode = bytes := by
  ext k hk : 1
  by_cases hfirst : k < 8
  · have hbyte : littleEndianByte (decode bytes).nonces k = bytes[0 + k] :=
      littleEndianByte_littleEndianNumber bytes (by decide) hfirst (by omega)
    rw [encode_getElem_of_lt _ hfirst, hbyte]
    simp only [Nat.zero_add]
  · obtain ⟨j, rfl⟩ := Nat.exists_eq_add_of_le (Nat.le_of_not_lt hfirst)
    rw [encode_getElem_add _ (by omega), nanosField_decode]
    exact littleEndianByte_littleEndianNumber bytes (by decide) (by omega) hk

/-- The number of nonces is the lower half of a message. -/
theorem value_encode (s : Sample) :
    s.encode.value = s.nonces.toNat + 2 ^ 64 * min s.elapsed.totalNanos (2 ^ 64 - 1) := by
  have hnonces : s.nonces.toNat < 256 ^ 8 := s.nonces.toNat_lt
  have hnanos : s.nanosField.toNat < 256 ^ 8 := s.nanosField.toNat_lt
  have hdigits : ∀ k, ∀ hk : k < 16,
      s.encode[k].toNat = (256 ^ 8 * s.nanosField.toNat + s.nonces.toNat) / 256 ^ k % 256 := by
    intro k hk
    by_cases hfirst : k < 8
    · rw [encode_getElem_of_lt _ hfirst, toNat_littleEndianByte _ hfirst,
        pow_mul_add_div_pow_mod 256 (by decide) hfirst]
    · obtain ⟨j, rfl⟩ := Nat.exists_eq_add_of_le (Nat.le_of_not_lt hfirst)
      rw [encode_getElem_add _ (by omega), toNat_littleEndianByte _ (by omega), pow_add,
        ← Nat.div_div_eq_div_mul, Nat.mul_add_div (by decide), Nat.div_eq_of_lt hnonces, Nat.add_zero]
  have hfits : 256 ^ 8 * s.nanosField.toNat + s.nonces.toNat < 256 ^ 16 := by omega
  calc
    s.encode.value = 256 ^ 8 * s.nanosField.toNat + s.nonces.toNat := by
      rw [Bytes.value_eq_mod hdigits, Nat.mod_eq_of_lt hfits]
    _ = s.nonces.toNat + 2 ^ 64 * min s.elapsed.totalNanos (2 ^ 64 - 1) := by
      have hhalf : 256 ^ 8 = 2 ^ 64 := by norm_num
      rw [toNat_nanosField, Nat.add_comm, size_eq_two_pow, hhalf]

theorem saturated_eq_self_iff (s : Sample) : s.saturated = s ↔ s.elapsed.totalNanos < 2 ^ 64 := by
  have hmin : min s.elapsed.totalNanos (UInt64.size - 1) = s.elapsed.totalNanos ↔
      s.elapsed.totalNanos < 2 ^ 64 := by
    rw [size_eq_two_pow]
    omega
  rw [← hmin, ← totalNanos_saturated, Duration.totalNanos_inj]
  exact ⟨fun h ↦ congrArg Sample.elapsed h, fun h ↦ congrArg (Sample.mk s.nonces) h⟩

theorem decode_encode_eq_self_iff (s : Sample) :
    decode s.encode = s ↔ s.elapsed.totalNanos < 2 ^ 64 := by
  rw [decode_encode, saturated_eq_self_iff]

theorem totalNanos_decode_encode (s : Sample) :
    (decode s.encode).elapsed.totalNanos = min s.elapsed.totalNanos (2 ^ 64 - 1) := by
  rw [decode_encode, totalNanos_saturated, size_eq_two_pow]

theorem elapsed_decode_encode_eq_zero_iff (s : Sample) :
    (decode s.encode).elapsed = .zero ↔ s.elapsed = .zero := by
  rw [Duration.eq_zero_iff, Duration.eq_zero_iff, totalNanos_decode_encode]
  omega

theorem injOn_encode : Set.InjOn encode {s | s.elapsed.totalNanos < 2 ^ 64} := by
  intro s hs t ht heq
  calc
    s = decode s.encode := (s.decode_encode_eq_self_iff.mpr hs).symm
    _ = decode t.encode := congrArg decode heq
    _ = t := t.decode_encode_eq_self_iff.mpr ht

theorem nonces_decode_encode (s : Sample) : (decode s.encode).nonces = s.nonces := by
  rw [decode_encode, saturated]

/-- A message stands for one sample, and a sample for one message unless it takes too long.  Then it is cut to
the longest time that a message can hold, which is not zero. -/
theorem messages_carry_samples :
    (∀ bytes : Bytes 16, (decode bytes).encode = bytes) ∧
    (∀ s : Sample,
      s.encode.value = s.nonces.toNat + 2 ^ 64 * min s.elapsed.totalNanos (2 ^ 64 - 1) ∧
      (decode s.encode).nonces = s.nonces ∧
      (decode s.encode).elapsed.totalNanos = min s.elapsed.totalNanos (2 ^ 64 - 1) ∧
      (decode s.encode = s ↔ s.elapsed.totalNanos < 2 ^ 64) ∧
      ((decode s.encode).elapsed = .zero ↔ s.elapsed = .zero)) ∧
    Set.InjOn encode {s | s.elapsed.totalNanos < 2 ^ 64} :=
  ⟨encode_decode, fun s ↦ ⟨s.value_encode, s.nonces_decode_encode, s.totalNanos_decode_encode,
    s.decode_encode_eq_self_iff, s.elapsed_decode_encode_eq_zero_iff⟩, injOn_encode⟩

/-- The shortest time that is cut. -/
example : (decode (encode ⟨1, ⟨18446744073, 709551616⟩⟩)).elapsed = ⟨18446744073, 709551615⟩ := by decide

end Sample

end Hashwork
