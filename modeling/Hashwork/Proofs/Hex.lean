import Hashwork.Bytes.Hex
import Hashwork.Proofs.Bytes
import Mathlib.Data.List.Basic

/-!
# What hexadecimal text says

A text is read as some bytes exactly if in lower case it is what is written for them.  A text that cannot be
read is refused for being odd, or else for its first byte that is no digit; as all digits are ASCII it makes no
difference whether its bytes are looked at or its characters.  What is written is the number in the bytes, with
its most significant digit first.
-/

namespace Hashwork.Hex

/-- The digits of either case. -/
def IsDigit (c : Char) : Prop :=
  ('0' ≤ c ∧ c ≤ '9') ∨ ('a' ≤ c ∧ c ≤ 'f') ∨ ('A' ≤ c ∧ c ≤ 'F')

instance (c : Char) : Decidable (IsDigit c) :=
  inferInstanceAs (Decidable (_ ∨ _ ∨ _))

/-! ## One digit -/

theorem isDigit_iff (c : Char) :
    IsDigit c ↔ (48 ≤ c.toNat ∧ c.toNat ≤ 57) ∨ (97 ≤ c.toNat ∧ c.toNat ≤ 102) ∨
      (65 ≤ c.toNat ∧ c.toNat ≤ 70) :=
  Iff.rfl

@[simp]
theorem toNat_ofUInt8 (byte : UInt8) : (Char.ofUInt8 byte).toNat = byte.toNat :=
  byte.toNat_toUInt32

theorem toNat_toLower (c : Char) :
    c.toLower.toNat = if 65 ≤ c.toNat ∧ c.toNat ≤ 90 then c.toNat + 32 else c.toNat := by
  have hupper : (c.val ≥ 'A'.val ∧ c.val ≤ 'Z'.val) ↔ 65 ≤ c.toNat ∧ c.toNat ≤ 90 := Iff.rfl
  unfold Char.toLower
  split
  · rename_i h
    have hle : c.val.toNat ≤ 90 := (hupper.mp h).2
    have hshift : ('a'.val - 'A'.val).toNat = 32 := rfl
    rw [if_pos (hupper.mp h)]
    change (c.val + ('a'.val - 'A'.val)).toNat = c.val.toNat + 32
    rw [UInt32.toNat_add, hshift]
    omega
  · rename_i h
    rw [if_neg (mt hupper.mpr h)]

theorem toNat_digitChar {digit : UInt8} (h : digit < 16) :
    (digitChar digit).toNat = if digit.toNat < 10 then digit.toNat + 48 else digit.toNat + 87 := by
  have hlt : digit.toNat < 16 := h
  simp only [digitChar, UInt8.lt_iff_toNat_lt, UInt8.reduceToNat]
  split
  · simp only [toNat_ofUInt8, UInt8.toNat_add, UInt8.reduceToNat]
    omega
  · simp only [toNat_ofUInt8, UInt8.toNat_add, UInt8.reduceToNat]
    omega

theorem some_sub_eq_some_iff {byte offset digit : UInt8} (h : offset.toNat ≤ byte.toNat) :
    some (byte - offset) = some digit ↔ digit.toNat + offset.toNat = byte.toNat := by
  rw [Option.some_inj, ← UInt8.toNat_inj, UInt8.toNat_sub_of_le _ _ h]
  omega

theorem digitValue_eq_some_iff_toNat {byte digit : UInt8} :
    digitValue byte = some digit ↔
      (48 ≤ byte.toNat ∧ byte.toNat ≤ 57 ∧ digit.toNat + 48 = byte.toNat) ∨
      (65 ≤ byte.toNat ∧ byte.toNat ≤ 70 ∧ digit.toNat + 55 = byte.toNat) ∨
      (97 ≤ byte.toNat ∧ byte.toNat ≤ 102 ∧ digit.toNat + 87 = byte.toNat) := by
  simp only [digitValue, UInt8.le_iff_toNat_le, UInt8.reduceToNat]
  split
  · rename_i hdecimal
    rw [some_sub_eq_some_iff (Nat.le_trans (by decide) hdecimal.1)]
    simp only [UInt8.reduceToNat]
    omega
  · split
    · rename_i hupper
      rw [some_sub_eq_some_iff (Nat.le_trans (by decide) hupper.1)]
      simp only [UInt8.reduceToNat]
      omega
    · split
      · rename_i hlower
        rw [some_sub_eq_some_iff (Nat.le_trans (by decide) hlower.1)]
        simp only [UInt8.reduceToNat]
        omega
      · simp only [reduceCtorEq, false_iff]
        omega

/-- A digit is read from the character that is written for it, and from the upper-case form of that. -/
theorem digitValue_eq_some_iff {byte digit : UInt8} :
    digitValue byte = some digit ↔ digit < 16 ∧ (Char.ofUInt8 byte).toLower = digitChar digit := by
  have hsixteen : digit < 16 ↔ digit.toNat < 16 := Iff.rfl
  have hlower (h : digit < 16) : (Char.ofUInt8 byte).toLower = digitChar digit ↔
      (if 65 ≤ byte.toNat ∧ byte.toNat ≤ 90 then byte.toNat + 32 else byte.toNat) =
        if digit.toNat < 10 then digit.toNat + 48 else digit.toNat + 87 := by
    rw [← Char.toNat_inj, toNat_toLower, toNat_ofUInt8, toNat_digitChar h]
  rw [digitValue_eq_some_iff_toNat]
  constructor
  · intro h
    have hlt : digit < 16 := by
      rw [hsixteen]
      omega
    refine ⟨hlt, (hlower hlt).mpr ?_⟩
    split <;> split <;> omega
  · rintro ⟨hlt, h⟩
    rw [hlower hlt] at h
    rw [hsixteen] at hlt
    split at h <;> split at h <;> omega

theorem digitValue_eq_none_iff {byte : UInt8} :
    digitValue byte = none ↔ ¬IsDigit (Char.ofUInt8 byte) := by
  simp only [digitValue, isDigit_iff, toNat_ofUInt8, UInt8.le_iff_toNat_le, UInt8.reduceToNat]
  split
  · simp only [reduceCtorEq, false_iff]
    omega
  · split
    · simp only [reduceCtorEq, false_iff]
      omega
    · split
      · simp only [reduceCtorEq, false_iff]
        omega
      · simp only [true_iff]
        omega

theorem isDigit_toLower (c : Char) : IsDigit c.toLower ↔ IsDigit c := by
  rw [isDigit_iff, isDigit_iff, toNat_toLower]
  split <;> omega

theorem isDigit_digitChar {digit : UInt8} (h : digit < 16) : IsDigit (digitChar digit) := by
  have hlt : digit.toNat < 16 := h
  rw [isDigit_iff, toNat_digitChar h]
  split <;> omega

theorem toLower_digitChar {digit : UInt8} (h : digit < 16) : (digitChar digit).toLower = digitChar digit := by
  have hlt : digit.toNat < 16 := h
  rw [← Char.toNat_inj, toNat_toLower, toNat_digitChar h]
  split <;> split <;> omega

/-! ## Two digits -/

theorem toNat_high (byte : UInt8) : (byte >>> 4).toNat = byte.toNat / 16 := by
  rw [UInt8.toNat_shiftRight]
  exact Nat.shiftRight_eq_div_pow _ 4

theorem toNat_low (byte : UInt8) : (byte &&& 15).toNat = byte.toNat % 16 := by
  rw [UInt8.toNat_and]
  exact Nat.and_two_pow_sub_one_eq_mod _ 4

theorem high_lt (byte : UInt8) : byte >>> 4 < 16 := by
  have hbyte := byte.toNat_lt
  have hhalf : byte.toNat / 16 < 16 := by omega
  rwa [← toNat_high] at hhalf

theorem low_lt (byte : UInt8) : byte &&& 15 < 16 := by
  have hhalf : byte.toNat % 16 < 16 := Nat.mod_lt _ (by decide)
  rwa [← toNat_low] at hhalf

theorem toNat_join {high low : UInt8} (hhigh : high < 16) (hlow : low < 16) :
    (high <<< 4 ||| low).toNat = 16 * high.toNat + low.toNat := by
  have hfits : high.toNat < 16 := hhigh
  have hshift : (high <<< 4).toNat = high.toNat <<< 4 := by
    rw [UInt8.toNat_shiftLeft]
    apply Nat.mod_eq_of_lt
    calc
      high.toNat <<< 4 = high.toNat * 16 := Nat.shiftLeft_eq _ 4
      _ < 2 ^ 8 := by omega
  rw [UInt8.toNat_or, hshift, ← Nat.shiftLeft_add_eq_or_of_lt hlow, Nat.shiftLeft_eq, Nat.mul_comm]

theorem join_halves (byte : UInt8) : (byte >>> 4) <<< 4 ||| (byte &&& 15) = byte := by
  rw [← UInt8.toNat_inj, toNat_join (high_lt byte) (low_lt byte), toNat_high, toNat_low]
  omega

theorem encodeByte_join {high low : UInt8} (hhigh : high < 16) (hlow : low < 16) :
    encodeByte (high <<< 4 ||| low) = [digitChar high, digitChar low] := by
  have hlt : low.toNat < 16 := hlow
  have hjoin := toNat_join hhigh hlow
  have hupper : (high <<< 4 ||| low) >>> 4 = high := by
    rw [← UInt8.toNat_inj, toNat_high, hjoin]
    omega
  have hlower : (high <<< 4 ||| low) &&& 15 = low := by
    rw [← UInt8.toNat_inj, toNat_low, hjoin]
    omega
  rw [encodeByte, hupper, hlower]

theorem exists_digitChar_eq_of_mem {bytes : List UInt8} {c : Char} (h : c ∈ bytes.flatMap encodeByte) :
    ∃ digit < 16, c = digitChar digit := by
  obtain ⟨byte, -, hmem⟩ := List.mem_flatMap.mp h
  rw [encodeByte, List.mem_cons, List.mem_singleton] at hmem
  rcases hmem with hhigh | hlow
  · exact ⟨byte >>> 4, high_lt byte, hhigh⟩
  · exact ⟨byte &&& 15, low_lt byte, hlow⟩

theorem isDigit_of_mem_encode {bytes : List UInt8} {c : Char} (h : c ∈ bytes.flatMap encodeByte) :
    IsDigit c := by
  obtain ⟨digit, hlt, rfl⟩ := exists_digitChar_eq_of_mem h
  exact isDigit_digitChar hlt

/-! ## Bytes that are digits -/

/-- The character that a byte of a text is, in lower case. -/
def lowerChar (byte : UInt8) : Char := (Char.ofUInt8 byte).toLower

/-- Two digits are read as a byte exactly if in lower case they are what is written for it. -/
theorem encodeByte_eq_iff {high low byte : UInt8} :
    [lowerChar high, lowerChar low] = encodeByte byte ↔
      ∃ h l, digitValue high = some h ∧ digitValue low = some l ∧ h <<< 4 ||| l = byte := by
  constructor
  · intro heq
    obtain ⟨hhigh, hlow⟩ : lowerChar high = digitChar (byte >>> 4) ∧
        lowerChar low = digitChar (byte &&& 15) := by
      simpa [encodeByte] using heq
    exact ⟨byte >>> 4, byte &&& 15, digitValue_eq_some_iff.mpr ⟨high_lt byte, hhigh⟩,
      digitValue_eq_some_iff.mpr ⟨low_lt byte, hlow⟩, join_halves byte⟩
  · rintro ⟨h, l, hhigh, hlow, rfl⟩
    obtain ⟨hlt, hhigh⟩ := digitValue_eq_some_iff.mp hhigh
    obtain ⟨llt, hlow⟩ := digitValue_eq_some_iff.mp hlow
    rw [encodeByte_join hlt llt, lowerChar, lowerChar, hhigh, hlow]

theorem map_cons_cons_eq_iff {high low : UInt8} {rest bytes : List UInt8} :
    (high :: low :: rest).map lowerChar = bytes.flatMap encodeByte ↔
      ∃ h l tail, digitValue high = some h ∧ digitValue low = some l ∧
        rest.map lowerChar = tail.flatMap encodeByte ∧ (h <<< 4 ||| l) :: tail = bytes := by
  constructor
  · intro heq
    cases bytes with
    | nil => cases heq
    | cons byte tail =>
      obtain ⟨hpair, hrest⟩ : [lowerChar high, lowerChar low] = encodeByte byte ∧
          rest.map lowerChar = tail.flatMap encodeByte :=
        List.append_inj heq rfl
      obtain ⟨h, l, hhigh, hlow, rfl⟩ := encodeByte_eq_iff.mp hpair
      exact ⟨h, l, tail, hhigh, hlow, hrest, rfl⟩
  · rintro ⟨h, l, tail, hhigh, hlow, hrest, rfl⟩
    have hpair := encodeByte_eq_iff.mpr ⟨h, l, hhigh, hlow, rfl⟩
    rw [List.flatMap_cons, ← hpair, ← hrest]
    rfl

theorem decodePairs_eq_ok_iff {position : Nat} {text bytes : List UInt8} :
    decodePairs position text = .ok bytes ↔ text.map lowerChar = bytes.flatMap encodeByte := by
  fun_induction decodePairs position text generalizing bytes with
  | case1 => cases bytes <;> simp [encodeByte]
  | case2 => cases bytes <;> simp [encodeByte]
  | case3 position high low rest hhigh => simp [-List.map_cons, map_cons_cons_eq_iff, hhigh]
  | case4 position high low rest h hlow hhigh => simp [-List.map_cons, map_cons_cons_eq_iff, hlow]
  | case5 position high low rest h l hlow hhigh ih =>
    simp only [map_cons_cons_eq_iff, hhigh, hlow, ← ih]
    cases decodePairs (position + 2) rest <;> simp [Except.map]

theorem exists_digitValue {byte : UInt8} (h : IsDigit (Char.ofUInt8 byte)) :
    ∃ digit, digitValue byte = some digit := by
  apply Option.ne_none_iff_exists'.mp
  intro hnone
  exact digitValue_eq_none_iff.mp hnone h

/-- Digits in pairs are all that it takes. -/
theorem exists_decodePairs_eq_ok (position : Nat) {text : List UInt8} (heven : text.length % 2 = 0)
    (hdigits : ∀ byte ∈ text, IsDigit (Char.ofUInt8 byte)) :
    ∃ bytes, decodePairs position text = .ok bytes := by
  fun_induction decodePairs position text with
  | case1 => exact ⟨[], rfl⟩
  | case2 => cases heven
  | case3 position high low rest hhigh =>
    exact absurd (hdigits high (by simp)) (digitValue_eq_none_iff.mp hhigh)
  | case4 position high low rest h hlow hhigh =>
    exact absurd (hdigits low (by simp)) (digitValue_eq_none_iff.mp hlow)
  | case5 position high low rest h l hlow hhigh ih =>
    rw [List.forall_mem_cons, List.forall_mem_cons] at hdigits
    have hrest : rest.length % 2 = 0 := by
      simp only [List.length_cons] at heven
      omega
    obtain ⟨bytes, hbytes⟩ := ih hrest hdigits.2.2
    exact ⟨(h <<< 4 ||| l) :: bytes, by rw [hbytes]; rfl⟩

/-- The first byte that is no digit is the one that is named. -/
theorem decodePairs_of_not_isDigit {byte : UInt8} (hbyte : ¬IsDigit (Char.ofUInt8 byte))
    (after : List UInt8) : ∀ (position : Nat) {before : List UInt8},
    (before ++ byte :: after).length % 2 = 0 → (∀ b ∈ before, IsDigit (Char.ofUInt8 b)) →
    decodePairs position (before ++ byte :: after) =
      .error (.invalidDigit byte (position + before.length))
  -- It may be either byte of a pair.
  | position, [], heven, _ => by
    cases after with
    | nil => cases heven
    | cons low rest => simp [decodePairs, digitValue_eq_none_iff.mpr hbyte]
  | position, [high], _, hbefore => by
    obtain ⟨h, hhigh⟩ := exists_digitValue (hbefore high (by simp))
    simp [decodePairs, hhigh, digitValue_eq_none_iff.mpr hbyte]
  | position, high :: low :: rest, heven, hbefore => by
    rw [List.forall_mem_cons, List.forall_mem_cons] at hbefore
    obtain ⟨h, hhigh⟩ := exists_digitValue hbefore.1
    obtain ⟨l, hlow⟩ := exists_digitValue hbefore.2.1
    have hrest : (rest ++ byte :: after).length % 2 = 0 := by
      simp only [List.cons_append, List.length_cons] at heven
      omega
    have hnamed := decodePairs_of_not_isDigit hbyte after (position + 2) hrest hbefore.2.2
    have hplace : position + 2 + rest.length = position + (high :: low :: rest).length := by
      simp only [List.length_cons]
      omega
    simp only [List.cons_append, decodePairs, hhigh, hlow, hnamed, Except.map, hplace]

/-! ## Characters that are digits -/

theorem toUTF8_toList (text : String) :
    text.toUTF8.data.toList = text.toList.flatMap String.utf8EncodeChar := by
  rw [String.toUTF8_eq_toByteArray, ← String.utf8Encode_toList]
  exact List.toList_data_toByteArray

theorem ofUInt8_toUInt8 {c : Char} (h : c.val ≤ 127) : Char.ofUInt8 c.val.toUInt8 = c := by
  have hle : c.toNat ≤ 127 := h
  have hbyte : c.val.toUInt8.toNat = c.toNat % 256 := UInt32.toNat_toUInt8 c.val
  rw [← Char.toNat_inj, toNat_ofUInt8, hbyte]
  omega

/-- A digit is a single byte in UTF-8. -/
theorem map_utf8EncodeChar {c : Char} (h : IsDigit c) :
    (String.utf8EncodeChar c).map Char.ofUInt8 = [c] := by
  have hascii : c.toNat ≤ 127 := by
    rw [isDigit_iff] at h
    omega
  rw [String.utf8EncodeChar_eq_singleton (Char.utf8Size_eq_one_iff.mpr hascii), List.map_singleton,
    ofUInt8_toUInt8 hascii]

/-- The last byte of a character that is not ASCII. -/
theorem continuation_mem_utf8EncodeChar {c : Char} (h : ¬c.val ≤ 127) :
    UInt8.ofNat (c.val.toNat % 64 + 128) ∈ String.utf8EncodeChar c := by
  have hwide : ¬c.val.toNat ≤ 127 := h
  simp only [String.utf8EncodeChar, if_neg hwide]
  split
  · simp
  · split <;> simp

/-- A character is a digit if all of its bytes are. -/
theorem isDigit_of_utf8EncodeChar {c : Char}
    (h : ∀ byte ∈ String.utf8EncodeChar c, IsDigit (Char.ofUInt8 byte)) : IsDigit c := by
  by_cases hascii : c.val ≤ 127
  · rw [String.utf8EncodeChar_eq_singleton (Char.utf8Size_eq_one_iff.mpr hascii),
      List.forall_mem_singleton, ofUInt8_toUInt8 hascii] at h
    exact h
  · have hlast := h _ (continuation_mem_utf8EncodeChar hascii)
    have hbyte : (UInt8.ofNat (c.val.toNat % 64 + 128)).toNat = c.val.toNat % 64 + 128 :=
      UInt8.toNat_ofNat_of_lt' (by rw [UInt8.size]; omega)
    rw [isDigit_iff, toNat_ofUInt8, hbyte] at hlast
    omega

theorem forall_mem_toUTF8_iff (text : String) :
    (∀ byte ∈ text.toUTF8.data.toList, IsDigit (Char.ofUInt8 byte)) ↔ ∀ c ∈ text.toList, IsDigit c := by
  rw [toUTF8_toList]
  constructor
  · intro h c hc
    exact isDigit_of_utf8EncodeChar fun byte hbyte ↦ h byte (List.mem_flatMap.mpr ⟨c, hc, hbyte⟩)
  · intro h byte hbyte
    obtain ⟨c, hc, hmem⟩ := List.mem_flatMap.mp hbyte
    have hchar : Char.ofUInt8 byte ∈ (String.utf8EncodeChar c).map Char.ofUInt8 :=
      List.mem_map_of_mem hmem
    rw [map_utf8EncodeChar (h c hc), List.mem_singleton] at hchar
    exact hchar ▸ h c hc

theorem map_ofUInt8_toUTF8 {text : String} (h : ∀ c ∈ text.toList, IsDigit c) :
    text.toUTF8.data.toList.map Char.ofUInt8 = text.toList := by
  rw [toUTF8_toList, List.map_flatMap]
  calc
    _ = text.toList.flatMap fun c ↦ [c] := List.flatMap_congr fun c hc ↦ map_utf8EncodeChar (h c hc)
    _ = text.toList := List.flatMap_singleton' _

/-! ## Reading and writing -/

theorem length_flatMap_encodeByte (bytes : List UInt8) :
    (bytes.flatMap encodeByte).length = 2 * bytes.length := by
  induction bytes with
  | nil => rfl
  | cons byte bytes ih =>
    simp only [List.flatMap_cons, List.length_append, encodeByte, List.length_cons, List.length_nil, ih]
    omega

@[simp]
theorem length_encode (bytes : List UInt8) : (encode bytes).length = 2 * bytes.length := by
  rw [encode, String.length_ofList, length_flatMap_encodeByte]

theorem length_eq_of_map_eq {text bytes : List UInt8}
    (h : text.map lowerChar = bytes.flatMap encodeByte) : text.length = 2 * bytes.length := by
  rw [← length_flatMap_encodeByte, ← h, List.length_map]

theorem decodeBytes_eq_ok_iff {text bytes : List UInt8} :
    decodeBytes text = .ok bytes ↔ text.map lowerChar = bytes.flatMap encodeByte := by
  rw [decodeBytes]
  split
  · rename_i hodd
    simp only [reduceCtorEq, false_iff]
    intro heq
    have hlength := length_eq_of_map_eq heq
    omega
  · exact decodePairs_eq_ok_iff

theorem decodeBytes_of_even {text : List UInt8} (h : text.length % 2 = 0) :
    decodeBytes text = decodePairs 0 text :=
  if_neg (by omega)

theorem exists_decodeBytes_eq_ok {text : List UInt8} (heven : text.length % 2 = 0)
    (hdigits : ∀ byte ∈ text, IsDigit (Char.ofUInt8 byte)) :
    ∃ bytes, decodeBytes text = .ok bytes ∧ 2 * bytes.length = text.length := by
  obtain ⟨bytes, hpairs⟩ := exists_decodePairs_eq_ok 0 heven hdigits
  have hread : decodeBytes text = .ok bytes := (decodeBytes_of_even heven).trans hpairs
  exact ⟨bytes, hread, (length_eq_of_map_eq (decodeBytes_eq_ok_iff.mp hread)).symm⟩

theorem toList_toLower (text : String) : text.toLower.toList = text.toList.map Char.toLower :=
  String.toList_map

theorem toLower_eq_encode_iff {text : String} {bytes : List UInt8} :
    text.toLower = encode bytes ↔ text.toList.map Char.toLower = bytes.flatMap encodeByte := by
  rw [← String.toList_inj, toList_toLower, encode, String.toList_ofList]

theorem toLower_encode (bytes : List UInt8) : (encode bytes).toLower = encode bytes := by
  rw [toLower_eq_encode_iff, encode, String.toList_ofList]
  have hlower : ∀ c ∈ bytes.flatMap encodeByte, c.toLower = id c := by
    intro c hc
    obtain ⟨digit, hlt, rfl⟩ := exists_digitChar_eq_of_mem hc
    exact toLower_digitChar hlt
  rw [List.map_congr_left hlower, List.map_id]

theorem forall_isDigit_of_toLower {text : String} {bytes : List UInt8}
    (h : text.toLower = encode bytes) : ∀ c ∈ text.toList, IsDigit c := by
  intro c hc
  rw [toLower_eq_encode_iff] at h
  have hlower : c.toLower ∈ bytes.flatMap encodeByte := h ▸ List.mem_map_of_mem hc
  exact (isDigit_toLower c).mp (isDigit_of_mem_encode hlower)

/-- Reading undoes writing, with no regard to case, and reads nothing else. -/
theorem decode_eq_ok_iff {text : String} {bytes : List UInt8} :
    decode text = .ok bytes ↔ text.toLower = encode bytes := by
  -- Bytes and characters correspond only where they are digits, so this comes first in both directions.
  have hlower (h : ∀ c ∈ text.toList, IsDigit c) :
      text.toUTF8.data.toList.map lowerChar = text.toList.map Char.toLower := by
    rw [← map_ofUInt8_toUTF8 h, List.map_map]
    rfl
  rw [decode, decodeBytes_eq_ok_iff]
  constructor
  · intro h
    have hdigits : ∀ c ∈ text.toList, IsDigit c := by
      rw [← forall_mem_toUTF8_iff]
      intro byte hbyte
      have hmem : lowerChar byte ∈ bytes.flatMap encodeByte := h ▸ List.mem_map_of_mem hbyte
      exact (isDigit_toLower _).mp (isDigit_of_mem_encode hmem)
    rw [toLower_eq_encode_iff, ← hlower hdigits, h]
  · intro h
    rw [hlower (forall_isDigit_of_toLower h), toLower_eq_encode_iff.mp h]

theorem length_toUTF8 {text : String} (h : ∀ c ∈ text.toList, IsDigit c) :
    text.toUTF8.data.toList.length = text.length := by
  rw [← String.length_toList, ← map_ofUInt8_toUTF8 h, List.length_map]

/-- The texts that can be read are those of digits alone, two for a byte. -/
theorem exists_decode_eq_ok_iff {text : String} {size : Nat} :
    (∃ bytes, decode text = .ok bytes ∧ bytes.length = size) ↔
      text.length = 2 * size ∧ ∀ c ∈ text.toList, IsDigit c := by
  constructor
  · rintro ⟨bytes, hread, rfl⟩
    have hlower := decode_eq_ok_iff.mp hread
    refine ⟨?_, forall_isDigit_of_toLower hlower⟩
    calc
      text.length = text.toLower.length := by
        rw [← String.length_toList, ← String.length_toList, toList_toLower, List.length_map]
      _ = 2 * bytes.length := by rw [hlower, length_encode]
  · rintro ⟨hlength, hdigits⟩
    have heven : text.toUTF8.data.toList.length % 2 = 0 := by
      rw [length_toUTF8 hdigits]
      omega
    obtain ⟨bytes, hread, hsize⟩ :=
      exists_decodeBytes_eq_ok heven ((forall_mem_toUTF8_iff text).mpr hdigits)
    rw [length_toUTF8 hdigits] at hsize
    exact ⟨bytes, hread, by omega⟩

/-! ## What is written, as a number -/

/-- A number in so many hexadecimal digits, the most significant first. -/
def numeral (digits number : Nat) : String :=
  String.ofList ((List.range digits).reverse.map fun place ↦ Nat.digitChar (number / 16 ^ place % 16))

theorem bigEndianValue_cons_eq (byte : UInt8) (bytes : List UInt8) :
    bigEndianValue (byte :: bytes) = 16 ^ (2 * bytes.length) * byte.toNat + bigEndianValue bytes := by
  rw [bigEndianValue, Nat.mul_comm, Nat.pow_mul]

theorem bigEndianValue_lt_pow (bytes : List UInt8) :
    bigEndianValue bytes < 16 ^ (2 * bytes.length) := by
  rw [Nat.pow_mul]
  exact bigEndianValue_lt bytes

theorem digitChar_eq {digit : UInt8} (h : digit < 16) :
    digitChar digit = Nat.digitChar digit.toNat := by
  have hall : ∀ n < 16, digitChar (UInt8.ofNat n) = Nat.digitChar n := by decide
  calc
    digitChar digit = digitChar (UInt8.ofNat digit.toNat) := by rw [UInt8.ofNat_toNat]
    _ = Nat.digitChar digit.toNat := hall digit.toNat h

theorem flatMap_encodeByte_eq (bytes : List UInt8) :
    bytes.flatMap encodeByte = (List.range (2 * bytes.length)).reverse.map fun place ↦
      Nat.digitChar (bigEndianValue bytes / 16 ^ place % 16) := by
  induction bytes with
  | nil => rfl
  | cons byte bytes ih =>
    have hbyte := byte.toNat_lt
    have hcount : 2 * (byte :: bytes).length = 2 * bytes.length + 1 + 1 := Nat.mul_succ 2 bytes.length
    have hlead : bigEndianValue (byte :: bytes) / 16 ^ (2 * bytes.length) = byte.toNat := by
      rw [bigEndianValue_cons_eq, Nat.mul_add_div (Nat.pow_pos (by decide)),
        Nat.div_eq_of_lt (bigEndianValue_lt_pow bytes), Nat.add_zero]
    have hhigh : Nat.digitChar (bigEndianValue (byte :: bytes) / 16 ^ (2 * bytes.length + 1) % 16) =
        digitChar (byte >>> 4) := by
      rw [pow_succ, ← Nat.div_div_eq_div_mul, hlead, digitChar_eq (high_lt byte), toNat_high,
        Nat.mod_eq_of_lt (by omega)]
    have hlow : Nat.digitChar (bigEndianValue (byte :: bytes) / 16 ^ (2 * bytes.length) % 16) =
        digitChar (byte &&& 15) := by
      rw [hlead, digitChar_eq (low_lt byte), toNat_low]
    have hrest : ∀ place ∈ (List.range (2 * bytes.length)).reverse,
        Nat.digitChar (bigEndianValue (byte :: bytes) / 16 ^ place % 16) =
          Nat.digitChar (bigEndianValue bytes / 16 ^ place % 16) := by
      intro place hmem
      rw [List.mem_reverse, List.mem_range] at hmem
      rw [bigEndianValue_cons_eq, pow_mul_add_div_pow_mod 16 (by decide) hmem]
    rw [hcount, List.range_succ, List.range_succ, List.reverse_concat, List.reverse_concat,
      List.map_cons, List.map_cons, hhigh, hlow, List.map_congr_left hrest, ← ih]
    rfl

theorem encode_eq_numeral (bytes : List UInt8) :
    encode bytes = numeral (2 * bytes.length) (bigEndianValue bytes) := by
  rw [encode, numeral, flatMap_encodeByte_eq]

end Hashwork.Hex
