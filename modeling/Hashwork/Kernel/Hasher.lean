import Hashwork.Lanes.Engine
import Hashwork.PadLock.Engine
import Hashwork.ShaExtension.Compression

/-!
# Hashers

A hasher computes the double hash for a batch of consecutive nonces.  It is asked for the last words of
all final states in the batch at once, and for the whole final state of one nonce only where that word
leaves acceptance possible.  Nothing is assumed about a hasher beyond the size of its batches; that one
computes the right hashes is for a theorem, or for a check before it is used.
-/

namespace Hashwork

structure Hasher where
  /-- The number of nonces in a batch. -/
  lanes : Nat
  lanes_range : 0 < lanes ∧ lanes ≤ 32
  /-- Writes the last words of the final states from nonce `base` on over what the buffer holds. -/
  fill : Prepared → (base : Word) → Vector Word lanes → Vector Word lanes
  /-- The final state of the nonce in one lane of the batch from `base` on. -/
  digest : Prepared → (base : Word) → (lane : Nat) → Sha256.State

namespace Hasher

/-- A hasher that does one nonce at a time and needs the whole final state for its last word. -/
def ofDoubleHash (hash : Prepared → Word → Sha256.State) : Hasher where
  lanes := 1
  lanes_range := by decide
  fill prepared base _ := #v[(hash prepared base).h]
  digest prepared base _ := hash prepared base

/-- The lane engine with vectors of type `V` and the given number of nonces in a batch. -/
@[specialize]
def ofLanes (V : Type) {width : Nat} [Lanes V width] (lanes : Nat)
    (lanes_range : 0 < lanes ∧ lanes ≤ 32) : Hasher where
  lanes := lanes
  lanes_range := lanes_range
  fill := Lanes.fillWord₇ V
  digest := Lanes.laneDigest V

/-- Does every round of both compressions, so that the others can be checked against it. -/
def reference : Hasher :=
  ofDoubleHash fun prepared nonce ↦
    Sha256.doubleHash prepared.midstate prepared.tail prepared.pad nonce

def single : Hasher := ofLanes Single 1 (by decide)

def packed4 : Hasher := ofLanes (Packed 4) 4 (by decide)

def packed4By4 : Hasher := ofLanes (Packed 4) 16 (by decide)

def packed4By8 : Hasher := ofLanes (Packed 4) 32 (by decide)

def packed8 : Hasher := ofLanes (Packed 8) 8 (by decide)

def quadBy8 : Hasher := ofLanes Quad 32 (by decide)

def shaExtension : Hasher := ofDoubleHash ShaExtension.doubleHash

def padLock : Hasher := ofDoubleHash PadLock.doubleHash

end Hasher

end Hashwork
