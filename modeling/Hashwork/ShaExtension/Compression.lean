import Hashwork.ShaExtension.Instructions
import Hashwork.Work.Prepared

/-!
# Compression with the instructions for SHA-256

The schedule is kept in a ring of four registers.  Each of the sixteen steps adds four round constants
to one of them and does four rounds, after which the two state registers are in place again; from the
fifth step on the register is replaced by the next four words of the schedule first.
-/

namespace Hashwork.ShaExtension

open Sha256 (roundConstants)

structure Progress where
  abef : Register
  cdgh : Register
  ring : Vector Register 4

def constantsAt (j : Nat) (h : j < 16) : Register :=
  ⟨roundConstants[4 * j], roundConstants[4 * j + 1], roundConstants[4 * j + 2],
    roundConstants[4 * j + 3]⟩

/-- The ring with the schedule words from `4 * j` on in place. -/
def nextWords (ring : Vector Register 4) (j : Nat) : Vector Register 4 :=
  let sum := add (scheduleFirst ring[j % 4] ring[(j + 1) % 4])
    (alignRight ring[(j + 3) % 4] ring[(j + 2) % 4] 1)
  ring.set (j % 4) (scheduleSecond sum ring[(j + 3) % 4])

def step (j : Nat) (h : j < 16) (p : Progress) : Progress :=
  let ring := if 4 ≤ j then nextWords p.ring j else p.ring
  let wk := add ring[j % 4] (constantsAt j h)
  let cdgh := twoRounds p.cdgh p.abef wk
  let abef := twoRounds p.abef cdgh (shuffle wk 0x0e)
  ⟨abef, cdgh, ring⟩

/-- The state as it is laid out in two registers. -/
def loadState (s : Sha256.State) : Register × Register :=
  let cdab := shuffle ⟨s.a, s.b, s.c, s.d⟩ 0xb1
  let efgh := shuffle ⟨s.e, s.f, s.g, s.h⟩ 0x1b
  (alignRight cdab efgh 2, blendUpper efgh cdab)

def storeState (abef cdgh : Register) : Sha256.State :=
  let feba := shuffle abef 0x1b
  let dchg := shuffle cdgh 0xb1
  let ⟨a, b, c, d⟩ := blendUpper feba dchg
  let ⟨e, f, g, h⟩ := alignRight dchg feba 2
  ⟨a, b, c, d, e, f, g, h⟩

def loadBlock (block : Sha256.Block) : Vector Register 4 :=
  Vector.ofFn fun j ↦
    ⟨block[4 * j.val], block[4 * j.val + 1], block[4 * j.val + 2], block[4 * j.val + 3]⟩

/-- The state after one more block of the message. -/
def compress (s : Sha256.State) (block : Sha256.Block) : Sha256.State :=
  let (abef, cdgh) := loadState s
  let p := Nat.fold 16 step ⟨abef, cdgh, loadBlock block⟩
  storeState (add p.abef abef) (add p.cdgh cdgh)

def doubleHash (prepared : Prepared) (nonce : Word) : Sha256.State :=
  let first := compress prepared.midstate (Sha256.withNonceWord prepared.tail nonce)
  compress Sha256.initial (first.toVector ++ prepared.pad)

end Hashwork.ShaExtension
