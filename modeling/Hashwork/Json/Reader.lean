import Hashwork.Text.Whole

/-!
# Reading documents from the left

A reader takes something off the front of a text and says what is left, which is shorter.  A text that ends
too early is told apart from one that can be no document whatever follows.
-/

namespace Hashwork.Json

inductive Fault where
  /-- No document begins like this. -/
  | malformed
  /-- The text ends in the middle of something. -/
  | incomplete
  /-- The document is not the one asked for. -/
  | unsuitable (message : String)
deriving DecidableEq, Repr

/-- What was read off the front of a text, and what is left. -/
structure Taken (α : Type) (text : List Char) where
  value : α
  rest : List Char
  shorter : rest.length < text.length

abbrev Reader (α : Type) := (text : List Char) → Except Fault (Taken α text)

/-- The number of the character in four hexadecimal digits, which have to be there before they are looked
at.  Up to four bytes of the text are counted, not characters. -/
def readCode : Reader Nat := fun text ↦
  if (String.ofList (text.take 4)).utf8ByteSize < 4 then .error .incomplete
  else
    match text with
    | a :: b :: c :: d :: rest =>
      match [a, b, c, d].mapM (Text.Whole.digitValue 16) with
      | some digits =>
        .ok ⟨digits.foldl (fun code digit ↦ code * 16 + digit) 0, rest, by simp; omega⟩
      | none => .error .malformed
    | _ => .error .malformed

/-- The characters that an escape names by a letter. -/
def namedEscape : Char → Option Char
  | '"' => some '"'
  | '\\' => some '\\'
  | '/' => some '/'
  | 'b' => some '\x08'
  | 'f' => some '\x0c'
  | 'n' => some '\n'
  | 'r' => some '\r'
  | 't' => some '\t'
  | _ => none

/-- The second half of a pair of numbers that together stand for one character. -/
def readSecondHalf (high : Nat) : Reader Char := fun text ↦
  match text with
  | [] | ['\\'] => .error .incomplete
  | '\\' :: 'u' :: rest => do
    let low ← readCode rest
    if 0xdc00 ≤ low.value ∧ low.value ≤ 0xdfff then
      .ok ⟨Char.ofNat ((high - 0xd800) * 0x400 + (low.value - 0xdc00) + 0x10000), low.rest,
        by have := low.shorter; simp; omega⟩
    else .error .malformed
  | _ => .error .malformed

/-- An escape, after its backslash. -/
def readEscape : Reader Char := fun text ↦
  match text with
  | [] => .error .incomplete
  | 'u' :: rest => do
    let code ← readCode rest
    if 0xdc00 ≤ code.value ∧ code.value ≤ 0xdfff then .error .malformed
    else if 0xd800 ≤ code.value ∧ code.value ≤ 0xdbff then do
      let c ← readSecondHalf code.value code.rest
      .ok ⟨c.value, c.rest, by have := code.shorter; have := c.shorter; simp; omega⟩
    else .ok ⟨Char.ofNat code.value, code.rest, by have := code.shorter; simp; omega⟩
  | c :: rest =>
    match namedEscape c with
    | some named => .ok ⟨named, rest, by simp⟩
    | none => .error .malformed

/-- A string, and whether it stands in the document exactly as it is. -/
structure Quoted where
  text : String
  verbatim : Bool
deriving DecidableEq, Repr

/-- The rest of a string, of which `seen` has been read, latest first. -/
def readString (seen : List Char) (verbatim : Bool) (text : List Char) :
    Except Fault (Quoted × List Char) :=
  match text with
  | [] => .error .incomplete
  | '"' :: rest => .ok (⟨String.ofList seen.reverse, verbatim⟩, rest)
  | '\\' :: rest =>
    match readEscape rest with
    | .ok escape =>
      have : escape.rest.length < rest.length + 1 := by have := escape.shorter; omega
      readString (escape.value :: seen) false escape.rest
    | .error fault => .error fault
  | c :: rest => if c < ' ' then .error .malformed else readString (c :: seen) verbatim rest
termination_by text.length

def isBlank (c : Char) : Bool :=
  c = ' ' || c = '\n' || c = '\t' || c = '\r'

/-- Reads the rest of a word, character by character. -/
def readWord : List Char → List Char → Except Fault Unit
  | [], _ => .ok ()
  | _ :: _, [] => .error .incomplete
  | c :: word, d :: text => if c = d then readWord word text else .error .malformed

end Hashwork.Json
