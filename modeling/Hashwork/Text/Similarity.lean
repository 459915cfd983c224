/-!
# Similarity of words

The measure of Jaro and Winkler.  Two characters match if they are equal and their places differ by less
than half the length of the longer word; each character is matched once, from the left.  The share of
matches in both words and the share of those in order are averaged, and a common beginning brings the
result closer to one.
-/

namespace Hashwork.Text.Similarity

/-- What has been matched: which characters of the second word, the number of matches, how many of them
came before the last one, and the place of the last one. -/
structure Matching where
  used : List Nat
  matched : Nat
  misplaced : Nat
  last : Nat

/-- The first unused place in `candidates` with the given character. -/
def findPlace (used : List Nat) (c : Char) : List (Char × Nat) → Option Nat
  | [] => none
  | (d, j) :: rest => if d = c ∧ j ∉ used then some j else findPlace used c rest

/-- Matches the character at place `i` of the first word. -/
def matchOne (window : Nat) (second : List (Char × Nat)) (m : Matching) (c : Char) (i : Nat) :
    Matching :=
  match findPlace m.used c (second.filter fun (_, j) ↦ i ≤ j + window ∧ j ≤ i + window) with
  | none => m
  | some j =>
    { used := j :: m.used
      matched := m.matched + 1
      misplaced := if j < m.last then m.misplaced + 1 else m.misplaced
      last := j }

def matching (first second : List Char) : Matching :=
  let window := max first.length second.length / 2 - 1
  first.zipIdx.foldl (fun m (c, i) ↦ matchOne window second.zipIdx m c i) ⟨[], 0, 0, 0⟩

def jaro (first second : List Char) : Float :=
  if first = second then 1
  else if first.isEmpty || second.isEmpty || (first.length == 1 && second.length == 1) then 0
  else
    let m := matching first second
    if m.matched = 0 then 0
    else
      let matched := m.matched.toFloat
      1.0 / 3.0 * (matched / first.length.toFloat + matched / second.length.toFloat +
        (matched - m.misplaced.toFloat) / matched)

def commonLength : List Char → List Char → Nat
  | c :: first, d :: second => if c = d then commonLength first second + 1 else 0
  | _, _ => 0

def jaroWinkler (first second : List Char) : Float :=
  let jaro := jaro first second
  let raised := jaro + 0.1 * (commonLength first second).toFloat * (1.0 - jaro)
  if raised ≤ 1 then raised else 1

/-- Words more similar than this are taken for a slip of the pen. -/
def threshold : Float := 0.8

/-- The most similar of several words, the first of equally similar ones, if it is similar enough. -/
def closest? (word : String) (words : List String) : Option String :=
  let step (best : Option (Float × String)) (candidate : String) : Option (Float × String) :=
    let similarity := jaroWinkler word.toList candidate.toList
    if similarity > threshold then
      match best with
      | some (known, _) => if known < similarity then some (similarity, candidate) else best
      | none => some (similarity, candidate)
    else best
  (words.foldl step none).map Prod.snd

end Hashwork.Text.Similarity
