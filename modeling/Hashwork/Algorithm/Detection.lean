import Hashwork.Algorithm.Basic
import Hashwork.PadLock.Detection

/-!
# Finding out what a processor can do

A Linux system describes its processors in a text, one paragraph for each, of lines with a name, a colon and
a value.  One of these lines lists the features by names of their own.  The engine of PadLock can also be found
out from what a processor says of itself.
-/

namespace Hashwork

/-- The names that the list has for a feature.  PadLock's engine is listed twice, as present and as enabled. -/
def Feature.flags : Feature → List String
  | .sse2 => ["sse2"]
  | .sse41 => ["sse4_1"]
  | .ssse3 => ["ssse3"]
  | .avx2 => ["avx2"]
  | .sha => ["sha_ni"]
  | .padLock => ["phe", "phe_en"]
  | .neon => ["asimd"]
  | .altivec => ["altivec"]

namespace Processor

/-- The words of a text, which are separated by blanks. -/
def words (text : String) : List String :=
  ((text.splitOn " ").flatMap (·.splitOn "\t")).filter (· != "")

/-- The words on both sides of the first colon of a line. -/
def entry (line : String) : List String × List String :=
  match line.splitOn ":" with
  | [] => ([], [])
  | name :: value => (words name, words (":".intercalate value))

/-- The processor in a description.  There is at least one thread. -/
def ofDescription (description : String) : Processor :=
  let entries := (description.splitOn "\n").map entry
  let isList (name : List String) := name == ["flags"] || name == ["Features"]
  let flags := ((entries.find? fun (name, _) ↦ isList name).map Prod.snd).getD []
  { has := fun feature ↦ feature.flags.all flags.contains
    threads := max 1 (entries.filter fun (name, _) ↦ name == ["processor"]).length }

/-- A processor of the x86-64 family that identifies itself like this.  How it comes by the features other than
PadLock's engine is left open. -/
def ofLeaves (reported : Feature → Bool) (identify : Word → PadLock.Leaf) (threads : Nat) : Processor where
  has
    | .sse2 => true
    | .padLock => PadLock.isUsable identify
    | .neon | .altivec => false
    | feature => reported feature
  threads := threads

end Processor

end Hashwork
