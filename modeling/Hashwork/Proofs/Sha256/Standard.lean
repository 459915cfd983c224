import Hashwork.Proofs.Bytes
import Mathlib.Data.Nat.NthRoot.Defs
import Mathlib.Data.Nat.Prime.Nth

/-!
# SHA-256 as it is specified

The specification counts the rounds by `t` and gives every word of the schedule and every constant as a function
of it.  The constants are no table: they are bits of the roots of the first primes.
-/

namespace Hashwork.Sha256.Standard

/-- Eight words: a hash value, or the variables of the compression. -/
structure Words where
  a : BitVec 32
  b : BitVec 32
  c : BitVec 32
  d : BitVec 32
  e : BitVec 32
  f : BitVec 32
  g : BitVec 32
  h : BitVec 32
deriving DecidableEq

def Words.add (v w : Words) : Words :=
  ⟨v.a + w.a, v.b + w.b, v.c + w.c, v.d + w.d, v.e + w.e, v.f + w.f, v.g + w.g, v.h + w.h⟩

section Functions

variable (x y z : BitVec 32)

def choose : BitVec 32 := (x &&& y) ^^^ (~~~x &&& z)

def majority : BitVec 32 := (x &&& y) ^^^ (x &&& z) ^^^ (y &&& z)

def bigSigma0 : BitVec 32 := x.rotateRight 2 ^^^ x.rotateRight 13 ^^^ x.rotateRight 22

def bigSigma1 : BitVec 32 := x.rotateRight 6 ^^^ x.rotateRight 11 ^^^ x.rotateRight 25

def smallSigma0 : BitVec 32 := x.rotateRight 7 ^^^ x.rotateRight 18 ^^^ x >>> 3

def smallSigma1 : BitVec 32 := x.rotateRight 17 ^^^ x.rotateRight 19 ^^^ x >>> 10

end Functions

/-- The first thirty-two bits of the fractional part of a root of `n`. -/
def rootBits (degree n : Nat) : BitVec 32 :=
  .ofNat 32 (Nat.nthRoot degree (n * 2 ^ (32 * degree)))

/-- The constant of round `t`, from the cube root of a prime. -/
noncomputable def constant (t : Nat) : BitVec 32 :=
  rootBits 3 (Nat.nth Nat.Prime t)

/-- The hash value to begin with, from the square roots of the first eight primes. -/
noncomputable def initial : Words :=
  let root (i : Nat) := rootBits 2 (Nat.nth Nat.Prime i)
  ⟨root 0, root 1, root 2, root 3, root 4, root 5, root 6, root 7⟩

/-- Word `t` of the schedule of a block. -/
def schedule (block : Fin 16 → BitVec 32) (t : Nat) : BitVec 32 :=
  if h : t < 16 then block ⟨t, h⟩
  else
    smallSigma1 (schedule block (t - 2)) + schedule block (t - 7) +
      smallSigma0 (schedule block (t - 15)) + schedule block (t - 16)

/-- A round with its constant and its word of the schedule. -/
def round (constant word : BitVec 32) (v : Words) : Words :=
  let t₁ := v.h + bigSigma1 v.e + choose v.e v.f v.g + constant + word
  let t₂ := bigSigma0 v.a + majority v.a v.b v.c
  ⟨t₁ + t₂, v.a, v.b, v.c, v.d + t₁, v.e, v.f, v.g⟩

/-- The variables after the first `t` rounds. -/
noncomputable def rounds (block : Fin 16 → BitVec 32) (hash : Words) (t : Nat) : Words :=
  t.fold (fun i _ v ↦ round (constant i) (schedule block i) v) hash

theorem rounds_succ (block : Fin 16 → BitVec 32) (hash : Words) (t : Nat) :
    rounds block hash (t + 1) = round (constant t) (schedule block t) (rounds block hash t) :=
  Nat.fold_succ ..

/-- The hash value after one more block. -/
noncomputable def compress (hash : Words) (block : Fin 16 → BitVec 32) : Words :=
  (rounds block hash 64).add hash

/-- A message followed by a one bit, by as few zero bits as possible and by its length in sixty-four bits, so
that all fills whole blocks. -/
structure Padded (message padded : List UInt8) : Prop where
  exists_zeros : ∃ zeros length, padded = message ++ 0x80 :: (List.replicate zeros 0 ++ length) ∧
    zeros < 64 ∧ length.length = 8 ∧ bigEndianValue length = 8 * message.length
  whole : 64 ∣ padded.length

/-- The word in four bytes, most significant byte first. -/
def wordAt (bytes : List UInt8) (i : Nat) : BitVec 32 :=
  .ofNat 32 (bigEndianValue ((bytes.drop i).take 4))

/-- The words in thirty-two bytes. -/
def wordsOf (bytes : List UInt8) : Words :=
  ⟨wordAt bytes 0, wordAt bytes 4, wordAt bytes 8, wordAt bytes 12, wordAt bytes 16, wordAt bytes 20,
    wordAt bytes 24, wordAt bytes 28⟩

/-- The hash value of a message that has been padded. -/
noncomputable def hash (padded : List UInt8) : Words :=
  (List.range (padded.length / 64)).foldl
    (fun hash i ↦ compress hash fun j ↦ wordAt padded (64 * i + 4 * j.val)) initial

end Hashwork.Sha256.Standard
