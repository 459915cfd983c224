import Hashwork.Bytes
import Hashwork.Text.Quoted

/-!
# Hexadecimal text

Bytes are written as two lower-case digits each and read back from digits of either case.  A text
that cannot be read has exactly one fault: an odd number of bytes is found before any digit is looked
at, and after that the first byte that is no digit is named with its offset.
-/

namespace Hashwork.Hex

/-- Why a text is not the hexadecimal form of any bytes. -/
inductive Fault where
  | oddLength
  | invalidDigit (byte : UInt8) (position : Nat)
deriving DecidableEq, Repr

/-- A byte that is no digit is shown as the character with its number. -/
def Fault.message : Fault → String
  | .oddLength => "Odd number of digits"
  | .invalidDigit byte position =>
    "Invalid character " ++ Text.quoteChar (Char.ofUInt8 byte) ++ " at position " ++
      toString position

/-- The value of an ASCII hexadecimal digit of either case. -/
def digitValue (byte : UInt8) : Option UInt8 :=
  if 48 ≤ byte ∧ byte ≤ 57 then some (byte - 48)
  else if 65 ≤ byte ∧ byte ≤ 70 then some (byte - 55)
  else if 97 ≤ byte ∧ byte ≤ 102 then some (byte - 87)
  else none

def digitChar (digit : UInt8) : Char :=
  if digit < 10 then Char.ofUInt8 (digit + 48) else Char.ofUInt8 (digit + 87)

def encodeByte (byte : UInt8) : List Char :=
  [digitChar (byte >>> 4), digitChar (byte &&& 15)]

def encode (bytes : List UInt8) : String :=
  String.ofList (bytes.flatMap encodeByte)

/-- Reads digits in pairs; `position` is the offset of the first of them in the whole text. -/
def decodePairs (position : Nat) : List UInt8 → Except Fault (List UInt8)
  | [] => .ok []
  | [_] => .error .oddLength
  | high :: low :: rest =>
    match digitValue high, digitValue low with
    | none, _ => .error (.invalidDigit high position)
    | some _, none => .error (.invalidDigit low (position + 1))
    | some h, some l => (decodePairs (position + 2) rest).map ((h <<< 4 ||| l) :: ·)

def decodeBytes (text : List UInt8) : Except Fault (List UInt8) :=
  if text.length % 2 = 1 then .error .oddLength else decodePairs 0 text

/-- The bytes that a text stands for, read from its UTF-8 form. -/
def decode (text : String) : Except Fault (List UInt8) :=
  decodeBytes text.toUTF8.data.toList

/-- A word is written as eight digits, most significant first. -/
def encodeWord (word : Word) : String :=
  encode ((List.finRange 4).map (Word.bigEndianByte word))

end Hashwork.Hex
