import Hashwork.Lanes.Basic
import Hashwork.Work.Prepared

/-!
# The lane engine

Each lane hashes its own nonce.  The engine starts from the state after the three rounds without the
nonce, takes the schedule words 16 and 17 as prepared, keeps only the last sixteen words of the schedule,
and, when nothing but the last word of the final state is wanted, stops the second compression after 61
of its 64 rounds: what is register `e` then is register `h` at the end.
-/

namespace Hashwork.Lanes

open Sha256 (roundConstants)

variable {V : Type} {width : Nat} [Lanes V width]

@[specialize]
def round (s : Registers V) (k : Word) (w : V) : Registers V :=
  let t₁ := add (add (add s.h (bigSigma1 s.e)) (choose s.e s.f s.g)) (add (splat k) w)
  let t₂ := add (bigSigma0 s.a) (majority s.a s.b s.c)
  ⟨add t₁ t₂, s.a, s.b, s.c, add s.d t₁, s.e, s.f, s.g⟩

/-- A working state with the last sixteen words of the schedule; word `i` is in place `i % 16`. -/
structure Progress (V : Type) where
  state : Registers V
  window : Vector V 16

/-- The next word of the schedule, of number `i`, from a window that ends before it. -/
@[specialize]
def expand (window : Vector V 16) (i : Nat) : V :=
  add (add (add window[(i - 16) % 16] (smallSigma0 window[(i - 15) % 16])) window[(i - 7) % 16])
    (smallSigma1 window[(i - 2) % 16])

/-- Round `i` with a word that is already in the window. -/
@[specialize]
def stepGiven (i : Nat) (hi : i < 16) (p : Progress V) : Progress V :=
  { p with state := round p.state roundConstants[i] p.window[i] }

/-- Round `i` with the next word of the schedule, which takes the oldest word's place. -/
@[specialize]
def stepExpanded (i : Nat) (hi : i < 64) (p : Progress V) : Progress V :=
  let word := expand p.window i
  ⟨round p.state roundConstants[i] word, p.window.set (i % 16) word⟩

/-- Round `16` or `17`, with a word prepared for all lanes. -/
@[specialize]
def stepPrepared (i : Nat) (hi : i < 64) (word : Word) (p : Progress V) : Progress V :=
  let word : V := splat word
  ⟨round p.state roundConstants[i] word, p.window.set (i % 16) word⟩

/-- The result of the first compression, for the nonce words in `nonces`. -/
@[specialize]
def firstHash (prepared : Prepared) (nonces : V) : Registers V :=
  let p : Progress V :=
    { state := prepared.state₃.map (splat : Word → V)
      window := 
        (prepared.tail.map (splat : Word → V)).set Sha256.noncePlace nonces Sha256.noncePlace_lt }
  let p := Nat.fold 13 (fun i _ (p : Progress V) ↦ stepGiven (i + 3) (by omega) p) p
  let p := stepPrepared 16 (by omega) prepared.word₁₆ p
  let p := stepPrepared 17 (by omega) prepared.word₁₇ p
  let p := Nat.fold 46 (fun i _ (p : Progress V) ↦ stepExpanded (i + 18) (by omega) p) p
  p.state.zipWith (fun (v : V) m ↦ add v (splat m)) prepared.midstate

/-- The working state of the second compression after `16 + extra` rounds. -/
@[specialize]
def secondRounds (first : Registers V) (pad : Vector Word 8) (extra : Nat) (h : extra ≤ 48) :
    Registers V :=
  let p : Progress V :=
    { state := Sha256.initial.map (splat : Word → V)
      window := first.toVector ++ pad.map (splat : Word → V) }
  let p := Nat.fold 16 (fun i _ (p : Progress V) ↦ stepGiven i (by omega) p) p
  let p := extra.fold (fun i _ (p : Progress V) ↦ stepExpanded (i + 16) (by omega) p) p
  p.state

/-- The last word of the final state, without the last three rounds. -/
@[specialize]
def word₇ (prepared : Prepared) (nonces : V) : V :=
  add (secondRounds (firstHash prepared nonces) prepared.pad 45 (by omega)).e
    (splat Sha256.initial.h)

/-- The whole final state. -/
@[specialize]
def digest (prepared : Prepared) (nonces : V) : Registers V :=
  (secondRounds (firstHash prepared nonces) prepared.pad 48 (by omega)).zipWith
    (fun (v : V) m ↦ add v (splat m)) Sha256.initial

/-- The words that hold the nonces from `base` on. -/
@[specialize]
def nonceWords (base : Word) : V :=
  load (Vector.ofFn fun i : Fin width ↦ (base + i.val.toUInt32).reverseBytes)

/-- Writes the last words of the final states for the nonces from `base` on, a whole vector at a time.
Entries after the last whole vector keep what they hold. -/
@[specialize]
def fillWord₇ (V : Type) {width : Nat} [Lanes V width] {n : Nat} (prepared : Prepared) (base : Word)
    (out : Vector Word n) : Vector Word n :=
  let groups : Vector (Vector Word width) (n / width) :=
    Vector.ofFn fun g ↦
      store (word₇ prepared (nonceWords (base + (g.val * width).toUInt32) : V))
  Vector.ofFn fun i ↦
    if h : i.val / width < n / width then
      have : i.val % width < width := Nat.mod_lt _ (width_pos V)
      groups[i.val / width][i.val % width]
    else out[i]

/-- The final state for the nonce `base + lane`, taken from the vector that it is in. -/
@[specialize]
def laneDigest (V : Type) {width : Nat} [Lanes V width] (prepared : Prepared) (base : Word)
    (lane : Nat) : Sha256.State :=
  let groupBase := base + (lane - lane % width).toUInt32
  have : lane % width < width := Nat.mod_lt _ (width_pos V)
  (digest prepared (nonceWords groupBase : V)).map fun v ↦ (store v)[lane % width]

end Hashwork.Lanes
