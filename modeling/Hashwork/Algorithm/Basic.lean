import Hashwork.Kernel.Run

/-!
# Algorithms

The algorithms are known by name and have a fixed order, in which they are listed and measured; of two
that are equally fast the earlier one wins.  Each has a kernel, which can run on the processors with every
feature that it uses.
-/

namespace Hashwork

inductive Algorithm where
  | c
  | fourWay
  | via
  | cryptoPp
  | sse2
  | sse4
  | avx2
  | shaNi
  | neon
  | altivec
  | scrypt
deriving DecidableEq, Repr

/-- What a processor may be able to do.  All processors of the x86-64 family have `sse2`, and all of the AArch64
family have `neon`. -/
inductive Feature where
  | sse2
  | sse41
  | ssse3
  | avx2
  | sha
  | padLock
  | neon
  | altivec
deriving DecidableEq, Repr

structure Processor where
  has : Feature → Bool
  threads : Nat

namespace Algorithm

/-- Every algorithm, in order. -/
def all : List Algorithm :=
  [c, fourWay, via, cryptoPp, sse2, sse4, avx2, shaNi, neon, altivec, scrypt]

def rank (algorithm : Algorithm) : Nat :=
  all.idxOf algorithm

def name : Algorithm → String
  | c => "c"
  | fourWay => "4way"
  | via => "via"
  | cryptoPp => "cryptopp"
  | sse2 => "sse2_64"
  | sse4 => "sse4_64"
  | avx2 => "avx2_8way"
  | shaNi => "shani"
  | neon => "neon_4way"
  | altivec => "altivec_4way"
  | scrypt => "scrypt"

def label : Algorithm → String
  | c => "C"
  | fourWay => "FourWay"
  | via => "Via"
  | cryptoPp => "CryptoPp"
  | sse2 => "Sse2"
  | sse4 => "Sse4"
  | avx2 => "Avx2"
  | shaNi => "ShaNi"
  | neon => "Neon"
  | altivec => "Altivec"
  | scrypt => "Scrypt"

/-- A name that is no algorithm's. -/
inductive NameFault where
  | unknown (name : String)
deriving DecidableEq, Repr

def NameFault.message : NameFault → String
  | .unknown name => "Unknown algorithm: " ++ name

/-- The algorithm of exactly this name. -/
def parse (text : String) : Except NameFault Algorithm :=
  match all.find? fun algorithm ↦ algorithm.name == text with
  | some algorithm => .ok algorithm
  | none => .error (.unknown text)

def isSha256d (algorithm : Algorithm) : Bool :=
  algorithm != scrypt

/-- Kernels that use special instructions are measured in a process of their own, in case the processor
claims a feature that it does not have. -/
def needsIsolation : Algorithm → Bool
  | c | cryptoPp | altivec | scrypt => false
  | _ => true

/-- The kernel of an algorithm on any processor that can run it. -/
def implementation : Algorithm → Kernel
  | c => .sha256d .reference
  | fourWay => .sha256d .packed4By4
  | via => .sha256d .padLock
  | cryptoPp => .sha256d .single
  | sse2 | sse4 => .sha256d .packed4
  | avx2 => .sha256d .packed8
  | shaNi => .sha256d .shaExtension
  | neon => .sha256d .packed4By8
  | altivec => .sha256d .quadBy8
  | scrypt => .scrypt

/-- The features that an algorithm's kernel uses. -/
def requires : Algorithm → List Feature
  | fourWay | sse2 => [.sse2]
  | sse4 => [.sse2, .sse41]
  | avx2 => [.sse2, .avx2]
  | shaNi => [.sse2, .sha, .sse41, .ssse3]
  | via => [.sse2, .padLock]
  | neon => [.neon]
  | altivec => [.altivec]
  | c | cryptoPp | scrypt => []

/-- The kernel of an algorithm, if this processor can run it. -/
def kernel? (processor : Processor) (algorithm : Algorithm) : Option Kernel :=
  if algorithm.requires.all processor.has then some algorithm.implementation else none

def isAvailable (processor : Processor) (algorithm : Algorithm) : Bool :=
  (algorithm.kernel? processor).isSome

end Algorithm

namespace Processor

/-- The algorithms that the processor can run, in order. -/
def available (processor : Processor) : List Algorithm :=
  Algorithm.all.filter (Algorithm.isAvailable processor)

def unavailable (processor : Processor) : List Algorithm :=
  Algorithm.all.filter (!Algorithm.isAvailable processor ·)

/-- The algorithms among which the fastest is sought. -/
def candidates (processor : Processor) : List Algorithm :=
  processor.available.filter Algorithm.isSha256d

/-- What the processor offers, line by line. -/
def summary (processor : Processor) : List String :=
  let names (algorithms : List Algorithm) := ", ".intercalate (algorithms.map Algorithm.name)
  ["CPU:",
    "\tThreads: " ++ toString processor.threads,
    "\tSupported kernels: " ++ names processor.available,
    "\tUnsupported kernels: " ++ names processor.unavailable]

end Processor

end Hashwork
