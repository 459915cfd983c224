import Hashwork.Bytes.Hex

/-!
# Reading byte strings of known length

A text that is well-formed hexadecimal may still have the wrong length; that is found last.
-/

namespace Hashwork

/-- Why a text or a byte string is not of the expected form. -/
inductive FormatFault where
  | length (expected actual : Nat)
  | hex (fault : Hex.Fault)
deriving DecidableEq, Repr

def FormatFault.message : FormatFault → String
  | .length expected actual =>
    "invalid length: expected " ++ toString expected ++ " bytes, got " ++ toString actual
  | .hex fault => "invalid hex: " ++ fault.message

namespace Bytes

def ofList (n : Nat) (bytes : List UInt8) : Except FormatFault (Bytes n) :=
  if h : bytes.length = n then .ok ⟨bytes.toArray, h⟩ else .error (.length n bytes.length)

def ofHex (n : Nat) (text : String) : Except FormatFault (Bytes n) :=
  match Hex.decode text with
  | .error fault => .error (.hex fault)
  | .ok bytes => ofList n bytes

def toHex {n : Nat} (bytes : Bytes n) : String :=
  Hex.encode bytes.toList

/-- The bytes in hexadecimal, last byte first, which is the usual order for a number stored least
significant byte first. -/
def toReversedHex {n : Nat} (bytes : Bytes n) : String :=
  Hex.encode bytes.toList.reverse

end Bytes

end Hashwork
