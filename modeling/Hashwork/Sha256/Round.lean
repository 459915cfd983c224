import Hashwork.Bytes

/-!
# One round of SHA-256

The working state is eight registers `a` to `h`.  The registers are generic, because the lane engine
keeps a vector in each of them; the round defined here is the one on single words, and every other
engine is measured against it.
-/

namespace Hashwork

structure Registers (α : Type) where
  a : α
  b : α
  c : α
  d : α
  e : α
  f : α
  g : α
  h : α
deriving DecidableEq, Repr, Inhabited

namespace Registers

variable {α β γ : Type}

def map (f : α → β) (r : Registers α) : Registers β :=
  ⟨f r.a, f r.b, f r.c, f r.d, f r.e, f r.f, f r.g, f r.h⟩

def zipWith (f : α → β → γ) (r : Registers α) (s : Registers β) : Registers γ :=
  ⟨f r.a s.a, f r.b s.b, f r.c s.c, f r.d s.d, f r.e s.e, f r.f s.f, f r.g s.g, f r.h s.h⟩

def toVector (r : Registers α) : Vector α 8 :=
  #v[r.a, r.b, r.c, r.d, r.e, r.f, r.g, r.h]

def ofVector (v : Vector α 8) : Registers α :=
  ⟨v[0], v[1], v[2], v[3], v[4], v[5], v[6], v[7]⟩

end Registers

namespace Sha256

abbrev State := Registers Word

abbrev Block := Vector Word 16

/-- The state in which the hash of every message starts. -/
def initial : State :=
  ⟨0x6a09e667, 0xbb67ae85, 0x3c6ef372, 0xa54ff53a,
    0x510e527f, 0x9b05688c, 0x1f83d9ab, 0x5be0cd19⟩

def roundConstants : Vector Word 64 :=
  #v[0x428a2f98, 0x71374491, 0xb5c0fbcf, 0xe9b5dba5, 0x3956c25b, 0x59f111f1, 0x923f82a4, 0xab1c5ed5,
    0xd807aa98, 0x12835b01, 0x243185be, 0x550c7dc3, 0x72be5d74, 0x80deb1fe, 0x9bdc06a7, 0xc19bf174,
    0xe49b69c1, 0xefbe4786, 0x0fc19dc6, 0x240ca1cc, 0x2de92c6f, 0x4a7484aa, 0x5cb0a9dc, 0x76f988da,
    0x983e5152, 0xa831c66d, 0xb00327c8, 0xbf597fc7, 0xc6e00bf3, 0xd5a79147, 0x06ca6351, 0x14292967,
    0x27b70a85, 0x2e1b2138, 0x4d2c6dfc, 0x53380d13, 0x650a7354, 0x766a0abb, 0x81c2c92e, 0x92722c85,
    0xa2bfe8a1, 0xa81a664b, 0xc24b8b70, 0xc76c51a3, 0xd192e819, 0xd6990624, 0xf40e3585, 0x106aa070,
    0x19a4c116, 0x1e376c08, 0x2748774c, 0x34b0bcb5, 0x391c0cb3, 0x4ed8aa4a, 0x5b9cca4f, 0x682e6ff3,
    0x748f82ee, 0x78a5636f, 0x84c87814, 0x8cc70208, 0x90befffa, 0xa4506ceb, 0xbef9a3f7, 0xc67178f2]

@[inline]
def bigSigma0 (x : Word) : Word :=
  x.rotateRight 2 ^^^ x.rotateRight 13 ^^^ x.rotateRight 22

@[inline]
def bigSigma1 (x : Word) : Word :=
  x.rotateRight 6 ^^^ x.rotateRight 11 ^^^ x.rotateRight 25

@[inline]
def smallSigma0 (x : Word) : Word :=
  x.rotateRight 7 ^^^ x.rotateRight 18 ^^^ (x >>> 3)

@[inline]
def smallSigma1 (x : Word) : Word :=
  x.rotateRight 17 ^^^ x.rotateRight 19 ^^^ (x >>> 10)

/-- Each bit is that of `f` where `e` has a one and that of `g` where it has a zero. -/
@[inline]
def choose (e f g : Word) : Word :=
  (e &&& f) ^^^ (~~~e &&& g)

/-- Each bit is the one that at least two of the three words have. -/
@[inline]
def majority (a b c : Word) : Word :=
  (a &&& b) ^^^ (a &&& c) ^^^ (b &&& c)

/-- One round with round constant `k` and schedule word `w`. -/
def round (s : State) (k w : Word) : State :=
  let t₁ := s.h + bigSigma1 s.e + choose s.e s.f s.g + k + w
  let t₂ := bigSigma0 s.a + majority s.a s.b s.c
  ⟨t₁ + t₂, s.a, s.b, s.c, s.d + t₁, s.e, s.f, s.g⟩

/-- The state written out, which is the digest when it is the state after the last block. -/
def State.toBytes (s : State) : Digest :=
  Bytes.ofWords s.toVector

end Sha256

end Hashwork
