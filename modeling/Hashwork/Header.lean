import Hashwork.Bytes.Format
import Hashwork.Sha256.Compression

/-!
# Block headers

A header is 80 bytes, of which the last four are the nonce, least significant byte first.  Padded for
SHA-256 it fills two blocks.  The first holds no part of the nonce, so the state after it, the
midstate, is the same for all nonces.
-/

namespace Hashwork

structure Header where
  bytes : Bytes 80
deriving DecidableEq

namespace Header

def ofList (bytes : List UInt8) : Except FormatFault Header :=
  (Bytes.ofList 80 bytes).map Header.mk

def parse (text : String) : Except FormatFault Header :=
  (Bytes.ofHex 80 text).map Header.mk

def text (header : Header) : String :=
  header.bytes.toHex

def label (header : Header) : String :=
  "BlockHeader(" ++ header.text ++ ")"

def nonce (header : Header) : Word :=
  header.bytes.littleEndianWord 76

def withNonce (header : Header) (nonce : Word) : Header :=
  ⟨(((header.bytes.set 76 (nonce.littleEndianByte 0)).set 77 (nonce.littleEndianByte 1)).set 78
    (nonce.littleEndianByte 2)).set 79 (nonce.littleEndianByte 3)⟩

/-- The state of SHA-256 after the first 64 bytes. -/
def midstate (header : Header) : Sha256.State :=
  Sha256.compress Sha256.initial (Vector.ofFn fun i ↦ header.bytes.word (4 * i.val))

/-- The second block of the padded header.  Its word 3 is the nonce with its bytes reversed. -/
def tail (header : Header) : Sha256.Block :=
  #v[header.bytes.word 64, header.bytes.word 68, header.bytes.word 72, header.bytes.word 76,
    0x80000000, 0, 0, 0, 0, 0, 0, 0, 0, 0, 0, 640]

end Header

end Hashwork
