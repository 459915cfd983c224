import Hashwork.Algorithm.Basic
import Hashwork.Proofs.Lanes.Engine
import Hashwork.Proofs.ShaExtension.Compression
import Hashwork.Proofs.Work.Template

/-!
# Exact hashers

A hasher is exact if, from what is prepared for a consistent item, it computes the double hash in every lane of
every batch.  The hashers of all algorithms are exact: those that do one nonce at a time, and those built on the
lane engine, whose batches consist of whole vectors.  Consistency matters to the one that starts from the header
itself.
-/

namespace Hashwork

namespace Hasher

structure Exact (hasher : Hasher) : Prop where
  fill_getElem {item : WorkItem} (consistent : item.Consistent) (base : Word)
    (out : Vector Word hasher.lanes) (k : Nat) (hk : k < hasher.lanes) :
    (hasher.fill (.ofItem item) base out)[k] =
      ((Prepared.ofItem item).finalState (base + k.toUInt32)).h
  digest_eq {item : WorkItem} (consistent : item.Consistent) (base : Word) (lane : Nat)
    (hlane : lane < hasher.lanes) :
    hasher.digest (.ofItem item) base lane =
      (Prepared.ofItem item).finalState (base + lane.toUInt32)

theorem exact_ofDoubleHash {hash : Prepared → Word → Sha256.State}
    (h : ∀ {item : WorkItem}, item.Consistent → ∀ nonce,
      hash (.ofItem item) nonce = (Prepared.ofItem item).finalState nonce) :
    (ofDoubleHash hash).Exact := by
  have hlane {item : WorkItem} (hconsistent : item.Consistent) (base : Word) (k : Nat) (hk : k < 1) :
      hash (.ofItem item) base = (Prepared.ofItem item).finalState (base + k.toUInt32) := by
    obtain rfl : k = 0 := Nat.lt_one_iff.mp hk
    have hbase : base + (0 : Nat).toUInt32 = base := UInt32.add_zero base
    rw [hbase, h hconsistent base]
  constructor
  · intro item hconsistent base out k hk
    rw [← hlane hconsistent base k hk]
    obtain rfl : k = 0 := Nat.lt_one_iff.mp hk
    rfl
  · intro item hconsistent base k hk
    exact hlane hconsistent base k hk

/-- No lane of a batch is left over after its whole vectors. -/
theorem exact_ofLanes (V : Type) {width : Nat} [Lanes V width] [LawfulLanes V] {lanes : Nat}
    (lanes_range : 0 < lanes ∧ lanes ≤ 32) (h : width ∣ lanes) :
    (ofLanes V lanes lanes_range).Exact where
  fill_getElem {item} _ base out k hk := by
    have hwhole : k < lanes / width * width := by
      rw [Nat.div_mul_cancel h]
      exact hk
    exact ((Lanes.computesDoubleHash V).fillWord₇_getElem item base out k hk).trans (if_pos hwhole)
  digest_eq {item} _ base lane _ := (Lanes.computesDoubleHash V).laneDigest_eq item base lane

theorem exact_reference : reference.Exact :=
  exact_ofDoubleHash fun _ _ ↦ rfl

theorem exact_shaExtension : shaExtension.Exact :=
  exact_ofDoubleHash fun _ _ ↦ ShaExtension.doubleHash_eq _ _

/-- The whole header leads to the same state as its midstate and its tail. -/
theorem exact_padLock : padLock.Exact := by
  refine exact_ofDoubleHash fun {item} hconsistent nonce ↦ ?_
  calc
    PadLock.doubleHash (.ofItem item) nonce =
        Sha256.doubleHash item.header.midstate item.header.tail Sha256.digestPad nonce :=
      Sha256.absorb_pad_withNonce item.header nonce
    _ = (Prepared.ofItem item).finalState nonce := by
      rw [← hconsistent.midstate_eq, ← hconsistent.pad_eq]
      rfl

end Hasher

/-- Exact kernels differ in their batches alone.  The scrypt kernel has one implementation. -/
def Kernel.Exact : Kernel → Prop
  | .sha256d hasher => hasher.Exact
  | .scrypt => True

namespace Algorithm

theorem exact_implementation (algorithm : Algorithm) : algorithm.implementation.Exact := by
  cases algorithm
  case c => exact Hasher.exact_reference
  case fourWay => exact Hasher.exact_ofLanes (Packed 4) (by decide) (by decide)
  case via => exact Hasher.exact_padLock
  case cryptoPp => exact Hasher.exact_ofLanes Single (by decide) (by decide)
  case sse2 => exact Hasher.exact_ofLanes (Packed 4) (by decide) (by decide)
  case sse4 => exact Hasher.exact_ofLanes (Packed 4) (by decide) (by decide)
  case avx2 => exact Hasher.exact_ofLanes (Packed 8) (by decide) (by decide)
  case shaNi => exact Hasher.exact_shaExtension
  case neon => exact Hasher.exact_ofLanes (Packed 4) (by decide) (by decide)
  case altivec => exact Hasher.exact_ofLanes Quad (by decide) (by decide)
  case scrypt => trivial

example : all.map (·.implementation.lanes) = [1, 16, 1, 1, 4, 4, 8, 1, 32, 32, 1] := rfl

/-- Which processor it is decides only whether there is a kernel. -/
theorem eq_implementation_of_kernel? {processor : Processor} {algorithm : Algorithm} {kernel : Kernel}
    (h : algorithm.kernel? processor = some kernel) : kernel = algorithm.implementation := by
  unfold kernel? at h
  split at h
  · exact (Option.some.inj h).symm
  · cases h

theorem exact_of_kernel? {processor : Processor} {algorithm : Algorithm} {kernel : Kernel}
    (h : algorithm.kernel? processor = some kernel) : kernel.Exact := by
  rw [eq_implementation_of_kernel? h]
  exact exact_implementation algorithm

theorem pow_of_kernel? {processor : Processor} {algorithm : Algorithm} {kernel : Kernel}
    (h : algorithm.kernel? processor = some kernel) (hsha : algorithm.isSha256d = true) :
    kernel.pow = .sha256d := by
  rw [eq_implementation_of_kernel? h]
  cases algorithm with
  | scrypt => cases hsha
  | _ => rfl

end Algorithm

end Hashwork
