import Hashwork.Word

/-!
# Looking for the PadLock engine

A processor identifies itself leaf by leaf.  Two makers build the engine.  Their processors have leaves of
their own, one of which says whether the engine is there and whether it is switched on.
-/

namespace Hashwork.PadLock

/-- The registers that are filled for one leaf. -/
structure Leaf where
  eax : Word
  ebx : Word
  ecx : Word
  edx : Word
deriving DecidableEq, Repr

/-- The name of a maker is twelve letters in three registers, which leaf 0 fills in this order. -/
structure Maker where
  ebx : Word
  edx : Word
  ecx : Word
deriving DecidableEq, Repr

def Leaf.maker (leaf : Leaf) : Maker := ⟨leaf.ebx, leaf.edx, leaf.ecx⟩

/-- Four letters in a register, the first of them lowest. -/
def letters (a b c d : Char) : Word :=
  .ofLittleEndian a.toUInt8 b.toUInt8 c.toUInt8 d.toUInt8

def Maker.centaur : Maker :=
  ⟨letters 'C' 'e' 'n' 't', letters 'a' 'u' 'r' 'H', letters 'a' 'u' 'l' 's'⟩

def Maker.zhaoxin : Maker :=
  ⟨letters ' ' ' ' 'S' 'h', letters 'a' 'n' 'g' 'h', letters 'a' 'i' ' ' ' '⟩

/-- The leaf that tells how far the makers' own leaves go. -/
def firstLeaf : Word := 0xc0000000

def engineLeaf : Word := 0xc0000001

/-- The bits of the engine, which have to be ones. -/
def presentAndEnabled : Word := 0xc00

/-- Whether the engine can be used on a processor that identifies itself like this. -/
def isUsable (identify : Word → Leaf) : Bool :=
  let maker := (identify 0).maker
  if maker != .centaur && maker != .zhaoxin then false
  else if (identify firstLeaf).eax < engineLeaf then false
  else (identify engineLeaf).edx &&& presentAndEnabled == presentAndEnabled

end Hashwork.PadLock
