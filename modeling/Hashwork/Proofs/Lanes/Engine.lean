import Hashwork.Proofs.Lanes.Simulation
import Hashwork.Proofs.Word
import Hashwork.Proofs.Work.Prepared

/-!
# The lane engine computes the double hash

Each lane of the first compression ends with the first hash of its own
nonce, and each lane of the second with the double hash.  Stopping three rounds early loses nothing
of the last word.
-/

namespace Hashwork

namespace Lanes

open Sha256 (Block State schedule roundsTo withNonceWord compress doubleHash)

variable {V : Type} {width : Nat} [Lanes V width] [LawfulLanes V] {i : Fin width}

theorem map_lane_zipWith (r : Registers V) (s : State) :
    (r.zipWith (fun v m ↦ add v (splat m)) s).map (lane i) =
      s.zipWith (· + ·) (r.map (lane i)) := by
  simp only [Registers.map, Registers.zipWith, LawfulLanes.lane_add, LawfulLanes.lane_splat]
  simp only [UInt32.add_comm]

/-- Before the round with the nonce, the prepared state is the one of that nonce. -/
theorem follows_prepared (item : WorkItem) (nonce : Word) {nonces : V}
    (h : lane i nonces = nonce.reverseBytes) :
    Follows i (withNonceWord item.header.tail nonce) item.midstate 3
      { state := (Prepared.ofItem item).state₃.map (splat : Word → V)
        window := ((Prepared.ofItem item).tail.map (splat : Word → V)).set Sha256.noncePlace nonces
          Sha256.noncePlace_lt } where
  rounds_le := by omega
  state_eq := by
    rw [map_lane_splat, Prepared.state₃_ofItem item nonce]
  window_eq k hk hlt hle := by
    have hk16 : k < 16 := by omega
    simp only [Nat.mod_eq_of_lt hk16, Sha256.schedule_getElem_of_lt _ k hk16,
      Sha256.withNonceWord_getElem _ _ k hk16, Vector.getElem_set, Sha256.noncePlace]
    split
    · rename_i heq
      rw [if_pos heq.symm, h]
    · rename_i hne
      rw [if_neg (Ne.symm hne), Vector.getElem_map, LawfulLanes.lane_splat]
      rfl

/-- The first compression of the nonce in each lane. -/
theorem map_lane_firstHash (item : WorkItem) (nonce : Word) {nonces : V}
    (h : lane i nonces = nonce.reverseBytes) :
    (firstHash (.ofItem item) nonces).map (lane i) =
      compress item.midstate (withNonceWord item.header.tail nonce) := by
  let block := withNonceWord item.header.tail nonce
  have h₃ := follows_prepared item nonce h
  have h₁₆ := fold_invariant (n := 13) (P := fun m p ↦ Follows i block item.midstate (m + 3) p) h₃
    fun m hm p hp ↦ hp.stepGiven (by omega : m + 3 < 16)
  have h₁₇ := h₁₆.stepPrepared (by omega) (by omega) (Prepared.word₁₆_ofItem item nonce (by omega))
  have h₁₈ := h₁₇.stepPrepared (by omega) (by omega) (Prepared.word₁₇_ofItem item nonce (by omega))
  have h₆₄ := fold_invariant (n := 46) (P := fun m p ↦ Follows i block item.midstate (m + 18) p) h₁₈
    fun m hm p hp ↦ hp.stepExpanded (by omega : m + 18 < 64) (by omega)
  calc
    (firstHash (.ofItem item) nonces).map (lane i) =
        item.midstate.zipWith (· + ·) (roundsTo (schedule block) item.midstate 64) := by
      unfold firstHash
      rw [map_lane_zipWith, h₆₄.state_eq]
      rfl
    _ = compress item.midstate block := rfl

/-- The second compression starts from the first hash and the padding. -/
theorem follows_second (first : Registers V) (pad : Vector Word 8) :
    Follows i ((first.map (lane i)).toVector ++ pad) Sha256.initial 0
      { state := Sha256.initial.map (splat : Word → V)
        window := first.toVector ++ pad.map (splat : Word → V) } where
  rounds_le := by omega
  state_eq := map_lane_splat _
  window_eq k hk hlt hle := by
    have hk16 : k < 8 + 8 := by omega
    simp only [Nat.mod_eq_of_lt hk16, Sha256.schedule_getElem_of_lt _ k hk16, map_lane_toVector]
    by_cases hk8 : k < 8
    · rw [Vector.getElem_append_left hk8, Vector.getElem_append_left hk8, Vector.getElem_map]
    · rw [Vector.getElem_append_right hk16 (by omega), Vector.getElem_append_right hk16 (by omega),
        Vector.getElem_map, LawfulLanes.lane_splat]

theorem map_lane_secondRounds (first : Registers V) (pad : Vector Word 8) (extra : Nat)
    (h : extra ≤ 48) :
    (secondRounds first pad extra h).map (lane i) =
      roundsTo (schedule ((first.map (lane i)).toVector ++ pad)) Sha256.initial (extra + 16) := by
  let block := (first.map (lane i)).toVector ++ pad
  have h₁₆ := fold_invariant (n := 16) (P := fun m p ↦ Follows i block Sha256.initial m p)
    (follows_second first pad) fun m hm p hp ↦ hp.stepGiven hm
  have hend := fold_invariant (n := extra)
    (P := fun m p ↦ Follows i block Sha256.initial (m + 16) p) h₁₆
    fun m hm p hp ↦ hp.stepExpanded (by omega : m + 16 < 64) (by omega)
  exact hend.state_eq

/-- All sixty-four rounds of both compressions, in each lane. -/
theorem map_lane_digest (item : WorkItem) (nonce : Word) {nonces : V}
    (h : lane i nonces = nonce.reverseBytes) :
    (digest (.ofItem item) nonces).map (lane i) = (Prepared.ofItem item).finalState nonce := by
  let first := firstHash (.ofItem item) nonces
  calc
    (digest (.ofItem item) nonces).map (lane i) =
        Sha256.initial.zipWith (· + ·) ((secondRounds first item.pad 48 (by omega)).map (lane i)) :=
      map_lane_zipWith _ _
    _ = compress Sha256.initial ((first.map (lane i)).toVector ++ item.pad) := by
      rw [map_lane_secondRounds]
      rfl
    _ = (Prepared.ofItem item).finalState nonce := by
      rw [map_lane_firstHash item nonce h]
      rfl

/-- Register `e` after 61 rounds is what the last word needs. -/
theorem lane_word₇ (item : WorkItem) (nonce : Word) {nonces : V}
    (h : lane i nonces = nonce.reverseBytes) :
    lane i (word₇ (.ofItem item) nonces) = ((Prepared.ofItem item).finalState nonce).h := by
  let block := (compress item.midstate (withNonceWord item.header.tail nonce)).toVector ++ item.pad
  have he : lane i (secondRounds (firstHash (.ofItem item) nonces) item.pad 45 (by omega)).e =
      (roundsTo (schedule block) Sha256.initial 61).e := by
    have hmap := map_lane_secondRounds (i := i) (firstHash (.ofItem item) nonces) item.pad 45
      (by omega)
    rw [map_lane_firstHash item nonce h] at hmap
    exact congrArg Registers.e hmap
  calc
    lane i (word₇ (.ofItem item) nonces) =
        (roundsTo (schedule block) Sha256.initial 61).e + Sha256.initial.h := by
      rw [← he]
      unfold word₇
      rw [LawfulLanes.lane_add, LawfulLanes.lane_splat]
      rfl
    _ = Sha256.initial.h + (roundsTo (schedule block) Sha256.initial 64).h := by
      rw [Sha256.roundsTo_add_three_h _ _ 61 (by omega), UInt32.add_comm]
    _ = _ := rfl

theorem lane_nonceWords (base : Word) :
    lane i (nonceWords base : V) = (base + i.val.toUInt32).reverseBytes := by
  simp [nonceWords]

/-- The engine over vectors of type `V` agrees with the double hash, from any nonce on and past the last
one, into a buffer of any length and for any lane. -/
structure ComputesDoubleHash (V : Type) {width : Nat} [Lanes V width] : Prop where
  fillWord₇_getElem (item : WorkItem) (base : Word) {n : Nat} (out : Vector Word n) (k : Nat)
    (hk : k < n) :
    (fillWord₇ V (.ofItem item) base out)[k] =
      if k < n / width * width then
        ((Prepared.ofItem item).finalState (base + k.toUInt32)).h
      else out[k]
  laneDigest_eq (item : WorkItem) (base : Word) (lane : Nat) :
    laneDigest V (.ofItem item) base lane =
      (Prepared.ofItem item).finalState (base + lane.toUInt32)

/-- The lane of a nonce within its vector, counted from the vector's first nonce. -/
theorem add_toUInt32_mod (base : Word) (k width : Nat) :
    base + (k / width * width).toUInt32 + (k % width).toUInt32 = base + k.toUInt32 := by
  calc
    base + (k / width * width).toUInt32 + (k % width).toUInt32 =
        base + (k / width * width + k % width).toUInt32 := by
      rw [UInt32.add_assoc, ← Word.toUInt32_add]
    _ = base + k.toUInt32 := by rw [Nat.div_add_mod']

theorem computesDoubleHash (V : Type) {width : Nat} [Lanes V width] [LawfulLanes V] :
    ComputesDoubleHash V where
  fillWord₇_getElem item base n out k hk := by
    have hpos := width_pos V
    have hmod : k % width < width := Nat.mod_lt k hpos
    simp only [fillWord₇, Vector.getElem_ofFn, Nat.div_lt_iff_lt_mul hpos]
    split
    · rw [← add_toUInt32_mod base k width]
      exact lane_word₇ (i := ⟨k % width, hmod⟩) item _ (lane_nonceWords _)
    · rfl
  laneDigest_eq item base k := by
    have hmod : k % width < width := Nat.mod_lt k (width_pos V)
    have hbase : k - k % width = k / width * width := Nat.div_mul_self_eq_mod_sub_self.symm
    rw [← add_toUInt32_mod base k width, ← hbase]
    exact map_lane_digest (i := ⟨k % width, hmod⟩) item _ (lane_nonceWords _)

/-- Single words, packed registers of four and of eight lanes, and quads. -/
theorem engines_computeDoubleHash :
    ComputesDoubleHash Single ∧ ComputesDoubleHash (Packed 4) ∧ ComputesDoubleHash Quad ∧
      ComputesDoubleHash (Packed 8) :=
  ⟨computesDoubleHash Single, computesDoubleHash (Packed 4), computesDoubleHash Quad,
    computesDoubleHash (Packed 8)⟩

end Lanes

end Hashwork
