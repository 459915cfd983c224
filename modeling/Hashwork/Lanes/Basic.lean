import Hashwork.Sha256.Round

/-!
# Vectors of lanes

A lane vector holds one word for each of several nonces.  An engine written over `Lanes` needs no more
of it than the operations of a SHA-256 round.  There are three kinds: a single word; a quad, which does
in each lane what the round on single words does; and a packed register, which has only lane-wise
addition, Boolean operations and shifts, so that a rotation takes two shifts.  Packed registers of four
and of eight lanes occur.

`choose` and `majority` are computed here with one operation less than in the round on single words.
-/

namespace Hashwork

class Lanes (V : Type) (width : outParam Nat) where
  width_pos : 0 < width
  splat : Word → V
  load : Vector Word width → V
  store : V → Vector Word width
  add : V → V → V
  choose : V → V → V → V
  majority : V → V → V → V
  bigSigma0 : V → V
  bigSigma1 : V → V
  smallSigma0 : V → V
  smallSigma1 : V → V

namespace Lanes

@[inline]
def chooseWord (e f g : Word) : Word :=
  g ^^^ (e &&& (f ^^^ g))

@[inline]
def majorityWord (a b c : Word) : Word :=
  (a &&& b) ||| (c &&& (a ||| b))

end Lanes

/-- One lane. -/
structure Single where
  word : Word
deriving DecidableEq

instance : Lanes Single 1 where
  width_pos := by decide
  splat x := ⟨x⟩
  load words := ⟨words[0]⟩
  store v := #v[v.word]
  add v w := ⟨v.word + w.word⟩
  choose e f g := ⟨Lanes.chooseWord e.word f.word g.word⟩
  majority a b c := ⟨Lanes.majorityWord a.word b.word c.word⟩
  bigSigma0 v := ⟨Sha256.bigSigma0 v.word⟩
  bigSigma1 v := ⟨Sha256.bigSigma1 v.word⟩
  smallSigma0 v := ⟨Sha256.smallSigma0 v.word⟩
  smallSigma1 v := ⟨Sha256.smallSigma1 v.word⟩

/-- Four lanes that are four separate words. -/
structure Quad where
  lane₀ : Word
  lane₁ : Word
  lane₂ : Word
  lane₃ : Word
deriving DecidableEq

namespace Quad

@[inline]
def map (f : Word → Word) (v : Quad) : Quad :=
  ⟨f v.lane₀, f v.lane₁, f v.lane₂, f v.lane₃⟩

@[inline]
def map₂ (f : Word → Word → Word) (v w : Quad) : Quad :=
  ⟨f v.lane₀ w.lane₀, f v.lane₁ w.lane₁, f v.lane₂ w.lane₂, f v.lane₃ w.lane₃⟩

@[inline]
def map₃ (f : Word → Word → Word → Word) (u v w : Quad) : Quad :=
  ⟨f u.lane₀ v.lane₀ w.lane₀, f u.lane₁ v.lane₁ w.lane₁, f u.lane₂ v.lane₂ w.lane₂,
    f u.lane₃ v.lane₃ w.lane₃⟩

end Quad

instance : Lanes Quad 4 where
  width_pos := by decide
  splat x := ⟨x, x, x, x⟩
  load words := ⟨words[0], words[1], words[2], words[3]⟩
  store v := #v[v.lane₀, v.lane₁, v.lane₂, v.lane₃]
  add := Quad.map₂ (· + ·)
  choose := Quad.map₃ Lanes.chooseWord
  majority := Quad.map₃ Lanes.majorityWord
  bigSigma0 := Quad.map Sha256.bigSigma0
  bigSigma1 := Quad.map Sha256.bigSigma1
  smallSigma0 := Quad.map Sha256.smallSigma0
  smallSigma1 := Quad.map Sha256.smallSigma1

/-- A register of `width` lanes whose instructions act on all lanes at once. -/
structure Packed (width : Nat) where
  words : Vector Word width
deriving DecidableEq

namespace Packed

variable {width : Nat}

def splat (x : Word) : Packed width := ⟨Vector.replicate width x⟩

def add (v w : Packed width) : Packed width := ⟨v.words.zipWith (· + ·) w.words⟩

def and (v w : Packed width) : Packed width := ⟨v.words.zipWith (· &&& ·) w.words⟩

def or (v w : Packed width) : Packed width := ⟨v.words.zipWith (· ||| ·) w.words⟩

def xor (v w : Packed width) : Packed width := ⟨v.words.zipWith (· ^^^ ·) w.words⟩

def shiftRight (v : Packed width) (n : Word) : Packed width := ⟨v.words.map (· >>> n)⟩

def shiftLeft (v : Packed width) (n : Word) : Packed width := ⟨v.words.map (· <<< n)⟩

def rotateRight (v : Packed width) (n : Word) : Packed width :=
  (v.shiftRight n).or (v.shiftLeft (32 - n))

def choose (e f g : Packed width) : Packed width :=
  g.xor (e.and (f.xor g))

def majority (a b c : Packed width) : Packed width :=
  (a.and b).or (c.and (a.or b))

def bigSigma0 (v : Packed width) : Packed width :=
  ((v.rotateRight 2).xor (v.rotateRight 13)).xor (v.rotateRight 22)

def bigSigma1 (v : Packed width) : Packed width :=
  ((v.rotateRight 6).xor (v.rotateRight 11)).xor (v.rotateRight 25)

def smallSigma0 (v : Packed width) : Packed width :=
  ((v.rotateRight 7).xor (v.rotateRight 18)).xor (v.shiftRight 3)

def smallSigma1 (v : Packed width) : Packed width :=
  ((v.rotateRight 17).xor (v.rotateRight 19)).xor (v.shiftRight 10)

end Packed

instance {n : Nat} : Lanes (Packed (n + 1)) (n + 1) where
  width_pos := Nat.succ_pos n
  splat := Packed.splat
  load words := ⟨words⟩
  store v := v.words
  add := Packed.add
  choose := Packed.choose
  majority := Packed.majority
  bigSigma0 := Packed.bigSigma0
  bigSigma1 := Packed.bigSigma1
  smallSigma0 := Packed.smallSigma0
  smallSigma1 := Packed.smallSigma1

end Hashwork
