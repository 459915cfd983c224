import Hashwork.Kernel.Hasher
import Hashwork.Routine

/-!
# Kernel runs

A kernel tries the nonces of a range in order, a batch at a time, until one is accepted, the range is at
its end, or the item's cancel flag is seen raised.  The flag is read after each batch but the last, so a
batch is what may still be hashed after the flag has been raised.

A run ends at a nonce of its range: the accepted one, or else the last one tried.  The item is left with
that nonce in its header and with the hash of the last candidate, which is the accepted hash if there is
one.
-/

namespace Hashwork

/-- A range of nonces that includes both ends, and so is not empty. -/
structure NonceRange where
  first : Word
  last : Word
  ordered : first ≤ last

/-- What a run over a range came to. -/
structure Run (range : NonceRange) where
  found : Bool
  /-- The accepted nonce if there is one, and otherwise the last nonce tried. -/
  last : Word
  first_le : range.first ≤ last
  le_last : last ≤ range.last

inductive Kernel where
  | sha256d (hasher : Hasher)
  | scrypt

namespace Kernel

def lanes : Kernel → Nat
  | sha256d hasher => hasher.lanes
  | scrypt => 1

def pow : Kernel → ProofOfWork
  | sha256d _ => .sha256d
  | scrypt => .scrypt

section Batches

variable {S : Type} (lanes : Nat)
  (hash : (base : Word) → (count : Nat) → count ≤ lanes → S × WorkItem →
    (S × WorkItem) × Option (Fin count))

/-- Tries the nonces from `base` to the end of the range, batch by batch.  `hash` tries one batch, of
which the first `count` lanes are in the range, and says which of them is accepted. -/
def runBatches (range : NonceRange) (base : Word) (first_le : range.first ≤ base)
    (le_last : base ≤ range.last) (s : S × WorkItem) : Polling (WorkItem × Run range) :=
  let count := min (range.last.toNat - base.toNat + 1) lanes
  match hash base count (Nat.min_le_right ..) s with
  | ((_, item), some lane) =>
    have inside : lane.val ≤ range.last.toNat - base.toNat :=
      Nat.le_of_lt_succ (Nat.lt_of_lt_of_le lane.isLt (Nat.min_le_left ..))
    .done (item,
      { found := true
        last := base + lane.val.toUInt32
        first_le := UInt32.le_trans first_le (Word.le_add_of_le_sub inside le_last)
        le_last := Word.add_le_of_le_sub inside le_last })
  | ((scratch, item), none) =>
    have inside : count - 1 ≤ range.last.toNat - base.toNat :=
      Nat.sub_le_of_le_add (Nat.min_le_left ..)
    let last := base + (count - 1).toUInt32
    let item := item.tried last
    have base_le : base ≤ last := Word.le_add_of_le_sub inside le_last
    let run : Run range :=
      { found := false
        last := last
        first_le := UInt32.le_trans first_le base_le
        le_last := Word.add_le_of_le_sub inside le_last }
    if h : last = range.last then .done (item, run)
    else
      have below : last < range.last := UInt32.lt_of_le_of_ne run.le_last h
      .ask () fun cancelled ↦
        if cancelled then .done (item, run)
        else
          runBatches range (last + 1) (Word.le_add_one run.first_le below) (Word.add_one_le below)
            (scratch, item)
termination_by range.last.toNat - base.toNat
decreasing_by exact Word.sub_add_one_lt base_le below

end Batches

/-- Looks at lanes in order: each whose word leaves acceptance possible is hashed in full and recorded,
until one is accepted. -/
def sift (hasher : Hasher) (prepared : Prepared) (base : Word) {count : Nat}
    (h : count ≤ hasher.lanes) (words : Vector Word hasher.lanes) :
    List (Fin count) → WorkItem → WorkItem × Option (Fin count)
  | [], item => (item, none)
  | lane :: rest, item =>
    if Sha256.mayBeAccepted words[lane] item.target.topWord then
      let hash := (hasher.digest prepared base lane).toBytes
      let item := item.record (base + lane.val.toUInt32) hash
      if item.target.accepts hash then (item, some lane)
      else sift hasher prepared base h words rest item
    else sift hasher prepared base h words rest item

/-- One batch of a SHA-256d kernel, with the buffer for the last words of the final states. -/
def hashBatch (hasher : Hasher) (prepared : Prepared) (base : Word) (count : Nat)
    (h : count ≤ hasher.lanes) (s : Vector Word hasher.lanes × WorkItem) :
    (Vector Word hasher.lanes × WorkItem) × Option (Fin count) :=
  let words := hasher.fill prepared base s.1
  let (item, accepted) := sift hasher prepared base h words (List.finRange count) s.2
  ((words, item), accepted)

/-- One batch of the scrypt kernel, which is a single nonce, with the table it works on.  Every hash
counts as a candidate. -/
def scryptBatch (base : Word) (count : Nat) (_ : count ≤ 1) (s : Scrypt.Table × WorkItem) :
    (Scrypt.Table × WorkItem) × Option (Fin count) :=
  let (hash, table) := Scrypt.hashWith s.1 (s.2.header.withNonce base).bytes
  let item := s.2.record base hash
  if h : 0 < count ∧ item.target.accepts hash = true then ((table, item), some ⟨0, h.1⟩)
  else ((table, item), none)

/-- Tries the nonces of a range. -/
def run (kernel : Kernel) (item : WorkItem) (range : NonceRange) :
    Polling (WorkItem × Run range) :=
  match kernel with
  | sha256d hasher =>
    runBatches hasher.lanes (hashBatch hasher (.ofItem item)) range range.first
      (UInt32.le_refl _) range.ordered (Vector.replicate hasher.lanes 0, item)
  | scrypt =>
    runBatches 1 scryptBatch range range.first (UInt32.le_refl _) range.ordered
      (.empty, item)

/-- A run during which the cancel flag stays as it is. -/
def runSteady (kernel : Kernel) (cancelled : Bool) (item : WorkItem) (range : NonceRange) :
    WorkItem × Run range :=
  (kernel.run item range).run (m := Id) fun _ ↦ cancelled

/-- Why a run cannot begin. -/
inductive RunFault where
  | emptyRange (pow : ProofOfWork) (first last : Word)
deriving DecidableEq, Repr

def RunFault.message : RunFault → String
  | .emptyRange .sha256d first last =>
    "empty nonce range " ++ toString first ++ "..=" ++ toString last
  | .emptyRange .scrypt _ _ => "assertion failed: start <= max"

/-- The range between two nonces, unless the second comes before the first. -/
def range (kernel : Kernel) (first last : Word) : Except RunFault NonceRange :=
  if h : first ≤ last then .ok ⟨first, last, h⟩
  else .error (.emptyRange kernel.pow first last)

end Kernel

end Hashwork
