import Hashwork.Bytes.Format

/-!
# Targets

A target is a 256-bit number.  It accepts the hashes that, read as numbers, are at most as large.  A
header states its target in compact form: a base-256 exponent in the top byte and a mantissa of 23
bits; bit 23, a sign, is ignored, and what does not fit into 256 bits is dropped.
-/

namespace Hashwork

structure Target where
  /-- The number, least significant byte first. -/
  bytes : Bytes 32
deriving DecidableEq

namespace Target

/-- The target that accepts every hash. -/
def max : Target := ⟨Vector.replicate 32 0xff⟩

def ofCompact (bits : Word) : Target :=
  let exponent := (bits >>> 24).toNat
  let mantissa := bits &&& (0x7fffff : Word)
  if exponent ≤ 3 then
    let small := mantissa >>> (8 * (3 - exponent)).toUInt32
    ⟨Vector.ofFn fun i ↦ if h : i.val < 4 then small.littleEndianByte ⟨i.val, h⟩ else 0⟩
  else
    ⟨Vector.ofFn fun i ↦
      if h : exponent - 3 ≤ i.val ∧ i.val < exponent then
        mantissa.littleEndianByte ⟨i.val - (exponent - 3), by omega⟩
      else 0⟩

/-- Reads a target written most significant byte first. -/
def parse (text : String) : Except FormatFault Target :=
  (Bytes.ofHex 32 text).map fun bytes ↦ ⟨bytes.reverse⟩

def text (target : Target) : String :=
  target.bytes.toReversedHex

def label (target : Target) : String :=
  "Target(" ++ target.text ++ ")"

/-- The most significant 32 bits. -/
def topWord (target : Target) : Word :=
  target.bytes.littleEndianWord 28

/-- Compares two numbers given most significant byte first. -/
def atMost : List UInt8 → List UInt8 → Bool
  | x :: xs, y :: ys => if x = y then atMost xs ys else x < y
  | _, _ => true

def accepts (target : Target) (hash : Digest) : Bool :=
  atMost hash.toList.reverse target.bytes.toList.reverse

end Target

end Hashwork
