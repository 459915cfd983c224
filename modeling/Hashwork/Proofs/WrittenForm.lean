import Hashwork.Header
import Hashwork.Target
import Hashwork.Proofs.Hex
import Mathlib.Logic.Equiv.Defs

/-!
# Headers and targets as text

Both are read from hexadecimal digits of either case, as many as it takes and no other, and written in lower
case: a header byte by byte as it stands, a target as a number.  All else is refused with one fault, the first
that applies to the bytes of the text.
-/

namespace Hashwork

/-- What is wrong with the bytes of a text in which `size` bytes should be written.  A digit is looked for only
where the bytes come in pairs, and the length counts only where all of them are digits. -/
inductive Faulty (size : Nat) (text : List UInt8) : FormatFault → Prop
  | oddLength (hodd : text.length % 2 = 1) : Faulty size text (.hex .oddLength)
  | invalidDigit {before after : List UInt8} {byte : UInt8} (heven : text.length % 2 = 0)
    (htext : text = before ++ byte :: after)
    (hbefore : ∀ b ∈ before, Hex.IsDigit (Char.ofUInt8 b))
    (hbyte : ¬Hex.IsDigit (Char.ofUInt8 byte)) :
    Faulty size text (.hex (.invalidDigit byte before.length))
  | length (heven : text.length % 2 = 0) (hdigits : ∀ b ∈ text, Hex.IsDigit (Char.ofUInt8 b))
    (hsize : text.length / 2 ≠ size) : Faulty size text (.length size (text.length / 2))

/-- Values that are numbers below `256 ^ size`, written as such in `2 * size` digits. -/
structure WrittenInHex {α : Type} (size : Nat) (parse : String → Except FormatFault α)
    (text : α → String) (number : α → Nat) : Prop where
  exists_parse_iff : ∀ s, (∃ x, parse s = .ok x) ↔
    s.length = 2 * size ∧ ∀ c ∈ s.toList, Hex.IsDigit c
  /-- Upper and lower case are read alike, and what is read is written back in lower case. -/
  parse_eq_ok_iff : ∀ s x, parse s = .ok x ↔ text x = s.toLower
  parse_text : ∀ x, parse (text x) = .ok x
  parse_eq_error_iff : ∀ s fault, parse s = .error fault ↔ Faulty size s.toUTF8.data.toList fault
  /-- The most significant digit stands first. -/
  text_eq : ∀ x, text x = Hex.numeral (2 * size) (number x)

/-- Another view of the values is written as they are. -/
theorem WrittenInHex.map {α β : Type} {size : Nat} {parse : String → Except FormatFault α}
    {text : α → String} {number : α → Nat} (h : WrittenInHex size parse text number) (view : α ≃ β) :
    WrittenInHex size (fun s ↦ (parse s).map view) (fun y ↦ text (view.symm y))
      (fun y ↦ number (view.symm y)) := by
  have hok (s : String) (y : β) : (parse s).map view = .ok y ↔ parse s = .ok (view.symm y) := by
    cases parse s with
    | error fault => simp [Except.map]
    | ok x => simp [Except.map, Equiv.eq_symm_apply]
  have herror (s : String) (fault : FormatFault) :
      (parse s).map view = .error fault ↔ parse s = .error fault := by
    cases parse s <;> simp [Except.map]
  refine ⟨fun s ↦ ?_, fun s y ↦ ?_, fun y ↦ ?_, fun s fault ↦ ?_, fun y ↦ h.text_eq _⟩
  · simp only [hok]
    exact view.symm.surjective.exists.symm.trans (h.exists_parse_iff s)
  · rw [hok, h.parse_eq_ok_iff]
  · rw [hok, h.parse_text]
  · rw [herror, h.parse_eq_error_iff]

namespace Bytes

variable {n : Nat}

theorem ofList_eq_ok_iff {list : List UInt8} {bytes : Bytes n} :
    ofList n list = .ok bytes ↔ list = bytes.toList := by
  rw [ofList]
  split
  · rename_i hlength
    rw [Except.ok.injEq, ← Vector.toList_inj]
    rfl
  · rename_i hlength
    simp only [reduceCtorEq, false_iff]
    rintro rfl
    exact hlength bytes.length_toList

theorem ofHex_eq_ok_iff_decode {text : String} {bytes : Bytes n} :
    ofHex n text = .ok bytes ↔ Hex.decode text = .ok bytes.toList := by
  rw [ofHex]
  cases Hex.decode text with
  | error fault => simp
  | ok list => rw [Except.ok.injEq, ofList_eq_ok_iff]

theorem ofHex_eq_ok_iff {text : String} {bytes : Bytes n} :
    ofHex n text = .ok bytes ↔ bytes.toHex = text.toLower := by
  rw [ofHex_eq_ok_iff_decode, Hex.decode_eq_ok_iff, toHex, eq_comm]

theorem exists_ofHex_eq_ok_iff {text : String} :
    (∃ bytes : Bytes n, ofHex n text = .ok bytes) ↔
      text.length = 2 * n ∧ ∀ c ∈ text.toList, Hex.IsDigit c := by
  rw [← Hex.exists_decode_eq_ok_iff]
  constructor
  · rintro ⟨bytes, hread⟩
    exact ⟨bytes.toList, ofHex_eq_ok_iff_decode.mp hread, bytes.length_toList⟩
  · rintro ⟨list, hread, hlength⟩
    refine ⟨⟨list.toArray, by simpa using hlength⟩, ofHex_eq_ok_iff_decode.mpr ?_⟩
    simpa using hread

theorem ofHex_of_faulty {text : String} {fault : FormatFault}
    (h : Faulty n text.toUTF8.data.toList fault) : ofHex n text = .error fault := by
  rw [ofHex, Hex.decode]
  cases h with
  | oddLength hodd => rw [Hex.decodeBytes, if_pos hodd]
  | @invalidDigit before after byte heven htext hbefore hbyte =>
    rw [Hex.decodeBytes_of_even heven]
    rw [htext] at heven ⊢
    rw [Hex.decodePairs_of_not_isDigit hbyte after 0 heven hbefore, Nat.zero_add]
  | length heven hdigits hsize =>
    obtain ⟨list, hread, hlength⟩ := Hex.exists_decodeBytes_eq_ok heven hdigits
    have hhalf : list.length = text.toUTF8.data.toList.length / 2 := by omega
    rw [hread]
    simp only [ofList, hhalf, dif_neg hsize]

theorem exists_faulty_or_exists (n : Nat) (text : String) :
    (∃ fault, Faulty n text.toUTF8.data.toList fault) ∨ ∃ bytes : Bytes n, ofHex n text = .ok bytes := by
  rcases Nat.mod_two_eq_zero_or_one text.toUTF8.data.toList.length with heven | hodd
  · cases hfirst : text.toUTF8.data.toList.find? fun b ↦ ¬Hex.IsDigit (Char.ofUInt8 b) with
    | none =>
      have hdigits : ∀ b ∈ text.toUTF8.data.toList, Hex.IsDigit (Char.ofUInt8 b) := by
        simpa using hfirst
      by_cases hsize : text.toUTF8.data.toList.length / 2 = n
      · refine .inr (exists_ofHex_eq_ok_iff.mpr ?_)
        have hchars := (Hex.forall_mem_toUTF8_iff text).mp hdigits
        rw [Hex.length_toUTF8 hchars] at heven hsize
        exact ⟨by omega, hchars⟩
      · exact .inl ⟨_, .length heven hdigits hsize⟩
    | some byte =>
      obtain ⟨hbyte, before, after, htext, hbefore⟩ := List.find?_eq_some_iff_append.mp hfirst
      exact .inl ⟨_, .invalidDigit heven htext (by simpa using hbefore) (by simpa using hbyte)⟩
  · exact .inl ⟨_, .oddLength hodd⟩

theorem writtenInHex (n : Nat) :
    WrittenInHex n (ofHex n) toHex fun bytes ↦ bigEndianValue bytes.toList where
  exists_parse_iff _ := exists_ofHex_eq_ok_iff
  parse_eq_ok_iff _ _ := ofHex_eq_ok_iff
  parse_text bytes := by
    rw [ofHex_eq_ok_iff, toHex, Hex.toLower_encode]
  parse_eq_error_iff s fault := by
    refine ⟨fun herror ↦ ?_, ofHex_of_faulty⟩
    rcases exists_faulty_or_exists n s with ⟨other, hother⟩ | ⟨bytes, hread⟩
    · have heq := herror.symm.trans (ofHex_of_faulty hother)
      cases heq
      exact hother
    · cases herror.symm.trans hread
  text_eq bytes := by
    have hlength := bytes.length_toList
    rw [toHex, Hex.encode_eq_numeral, hlength]

end Bytes

/-- The bytes of a header, in the order in which they are written. -/
def Header.ofWritten : Bytes 80 ≃ Header :=
  ⟨Header.mk, Header.bytes, fun _ ↦ rfl, fun _ ↦ rfl⟩

/-- The bytes of a target, in the order in which they are written. -/
def Target.ofWritten : Bytes 32 ≃ Target where
  toFun bytes := ⟨bytes.reverse⟩
  invFun target := target.bytes.reverse
  left_inv bytes := by simp
  right_inv target := by simp

theorem Target.text_eq (target : Target) : target.text = Bytes.toHex (ofWritten.symm target) := by
  change Hex.encode target.bytes.toList.reverse = Hex.encode target.bytes.reverse.toList
  rw [Vector.toList_reverse]

theorem Target.value_eq (target : Target) :
    target.bytes.value = bigEndianValue (ofWritten.symm target).toList := by
  change target.bytes.value = bigEndianValue target.bytes.reverse.toList
  rw [Bytes.value_eq_bigEndianValue, Vector.toList_reverse]

/-- The two are written in the same way, a header as its bytes stand and a target as the number that it is. -/
theorem writtenInHex_header_target :
    WrittenInHex 80 Header.parse Header.text (fun header ↦ bigEndianValue header.bytes.toList) ∧
      WrittenInHex 32 Target.parse Target.text fun target ↦ target.bytes.value := by
  refine ⟨(Bytes.writtenInHex 80).map Header.ofWritten, ?_⟩
  simp only [funext Target.text_eq, Target.value_eq]
  exact (Bytes.writtenInHex 32).map Target.ofWritten

/-- A character that is no digit is not noticed where the bytes do not come in pairs. -/
example : Target.parse "zé" = .error (.hex .oddLength) := by decide

end Hashwork
