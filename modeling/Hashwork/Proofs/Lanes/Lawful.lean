import Hashwork.Lanes.Basic

/-!
# Lane vectors act lane by lane

The law of a kind of lane vector is that every operation does in each lane what the round of SHA-256 does
on single words.  It holds of all kinds: single words, quads, and packed registers of any width.  What is
to be checked are the shorter forms of `choose` and `majority`, and the rotations by two shifts.
-/

namespace Hashwork

namespace Lanes

variable {V : Type} {width : Nat} [Lanes V width]

/-- The word that a vector holds in one of its lanes. -/
def lane (i : Fin width) (v : V) : Word :=
  (store v)[i]

/-- Each bit is taken from `f` or from `g`, as in the form with one operation more. -/
theorem chooseWord_eq_choose (e f g : Word) : chooseWord e f g = Sha256.choose e f g := by
  apply UInt32.toBitVec_inj.mp
  apply BitVec.eq_of_getLsbD_eq
  intro i hi
  simp only [chooseWord, Sha256.choose, UInt32.toBitVec_xor, UInt32.toBitVec_and,
    UInt32.toBitVec_not, BitVec.getLsbD_xor, BitVec.getLsbD_and, BitVec.getLsbD_not, hi,
    decide_true, Bool.true_and]
  cases e.toBitVec.getLsbD i <;> cases f.toBitVec.getLsbD i <;> simp

theorem majorityWord_eq_majority (a b c : Word) :
    majorityWord a b c = Sha256.majority a b c := by
  apply UInt32.toBitVec_inj.mp
  apply BitVec.eq_of_getLsbD_eq
  intro i hi
  simp only [majorityWord, Sha256.majority, UInt32.toBitVec_or, UInt32.toBitVec_xor,
    UInt32.toBitVec_and, BitVec.getLsbD_or, BitVec.getLsbD_xor, BitVec.getLsbD_and]
  cases a.toBitVec.getLsbD i <;> cases b.toBitVec.getLsbD i <;> simp

end Lanes

open Lanes in
class LawfulLanes (V : Type) {width : outParam Nat} [Lanes V width] : Prop where
  lane_load (words : Vector Word width) (i : Fin width) : lane i (load words : V) = words[i]
  lane_splat (x : Word) (i : Fin width) : lane i (splat x : V) = x
  lane_add (v w : V) (i : Fin width) : lane i (add v w) = lane i v + lane i w
  lane_choose (e f g : V) (i : Fin width) :
    lane i (choose e f g) = Sha256.choose (lane i e) (lane i f) (lane i g)
  lane_majority (a b c : V) (i : Fin width) :
    lane i (majority a b c) = Sha256.majority (lane i a) (lane i b) (lane i c)
  lane_bigSigma0 (v : V) (i : Fin width) : lane i (bigSigma0 v) = Sha256.bigSigma0 (lane i v)
  lane_bigSigma1 (v : V) (i : Fin width) : lane i (bigSigma1 v) = Sha256.bigSigma1 (lane i v)
  lane_smallSigma0 (v : V) (i : Fin width) :
    lane i (smallSigma0 v) = Sha256.smallSigma0 (lane i v)
  lane_smallSigma1 (v : V) (i : Fin width) :
    lane i (smallSigma1 v) = Sha256.smallSigma1 (lane i v)

attribute [simp] LawfulLanes.lane_load LawfulLanes.lane_splat LawfulLanes.lane_add
  LawfulLanes.lane_choose LawfulLanes.lane_majority LawfulLanes.lane_bigSigma0
  LawfulLanes.lane_bigSigma1 LawfulLanes.lane_smallSigma0 LawfulLanes.lane_smallSigma1

namespace Lanes

theorem lane_single (v : Single) (i : Fin 1) : lane i v = v.word := by
  obtain rfl : i = 0 := Subsingleton.elim _ _
  rfl

instance : LawfulLanes Single where
  lane_load words i := by
    obtain rfl : i = 0 := Subsingleton.elim _ _
    rfl
  lane_splat x i := lane_single _ i
  lane_add v w i := by
    simp only [lane_single]
    rfl
  lane_choose e f g i := by
    simp only [lane_single, ← chooseWord_eq_choose]
    rfl
  lane_majority a b c i := by
    simp only [lane_single, ← majorityWord_eq_majority]
    rfl
  lane_bigSigma0 v i := by
    simp only [lane_single]
    rfl
  lane_bigSigma1 v i := by
    simp only [lane_single]
    rfl
  lane_smallSigma0 v i := by
    simp only [lane_single]
    rfl
  lane_smallSigma1 v i := by
    simp only [lane_single]
    rfl

theorem lane_quad_map (f : Word → Word) (v : Quad) (i : Fin 4) :
    lane i (v.map f) = f (lane i v) := by
  match i with
  | 0 | 1 | 2 | 3 => rfl

theorem lane_quad_map₂ (f : Word → Word → Word) (v w : Quad) (i : Fin 4) :
    lane i (v.map₂ f w) = f (lane i v) (lane i w) := by
  match i with
  | 0 | 1 | 2 | 3 => rfl

theorem lane_quad_map₃ (f : Word → Word → Word → Word) (u v w : Quad) (i : Fin 4) :
    lane i (Quad.map₃ f u v w) = f (lane i u) (lane i v) (lane i w) := by
  match i with
  | 0 | 1 | 2 | 3 => rfl

instance : LawfulLanes Quad where
  lane_load words i := by
    match i with
    | 0 | 1 | 2 | 3 => rfl
  lane_splat x i := by
    match i with
    | 0 | 1 | 2 | 3 => rfl
  lane_add v w i := lane_quad_map₂ _ v w i
  lane_choose e f g i := by
    rw [← chooseWord_eq_choose]
    exact lane_quad_map₃ _ e f g i
  lane_majority a b c i := by
    rw [← majorityWord_eq_majority]
    exact lane_quad_map₃ _ a b c i
  lane_bigSigma0 v i := lane_quad_map _ v i
  lane_bigSigma1 v i := lane_quad_map _ v i
  lane_smallSigma0 v i := lane_quad_map _ v i
  lane_smallSigma1 v i := lane_quad_map _ v i

section Packed

variable {n : Nat}

/-- A rotation by two shifts is one in each lane. -/
theorem rotateRight_words_getElem (v : Packed n) (k : Word) (i : Nat) (hi : i < n) :
    (v.rotateRight k).words[i] = v.words[i].rotateRight k := by
  simp only [Packed.rotateRight, Packed.or, Packed.shiftRight, Packed.shiftLeft,
    Vector.getElem_zipWith, Vector.getElem_map, Word.rotateRight]

instance : LawfulLanes (Packed (n + 1)) where
  lane_load words i := rfl
  lane_splat x i := Vector.getElem_replicate i.isLt
  lane_add v w i := Vector.getElem_zipWith i.isLt
  lane_choose e f g i := by
    simp only [lane, store, choose, Packed.choose, Packed.xor, Packed.and, Fin.getElem_fin,
      Vector.getElem_zipWith, ← chooseWord_eq_choose, chooseWord]
  lane_majority a b c i := by
    simp only [lane, store, majority, Packed.majority, Packed.or, Packed.and, Fin.getElem_fin,
      Vector.getElem_zipWith, ← majorityWord_eq_majority, majorityWord]
  lane_bigSigma0 v i := by
    simp only [lane, store, bigSigma0, Packed.bigSigma0, Packed.xor, Fin.getElem_fin,
      Vector.getElem_zipWith, rotateRight_words_getElem, Sha256.bigSigma0]
  lane_bigSigma1 v i := by
    simp only [lane, store, bigSigma1, Packed.bigSigma1, Packed.xor, Fin.getElem_fin,
      Vector.getElem_zipWith, rotateRight_words_getElem, Sha256.bigSigma1]
  lane_smallSigma0 v i := by
    simp only [lane, store, smallSigma0, Packed.smallSigma0, Packed.xor, Packed.shiftRight,
      Fin.getElem_fin, Vector.getElem_zipWith, Vector.getElem_map, rotateRight_words_getElem,
      Sha256.smallSigma0]
  lane_smallSigma1 v i := by
    simp only [lane, store, smallSigma1, Packed.smallSigma1, Packed.xor, Packed.shiftRight,
      Fin.getElem_fin, Vector.getElem_zipWith, Vector.getElem_map, rotateRight_words_getElem,
      Sha256.smallSigma1]

end Packed

end Lanes

end Hashwork
