import Hashwork.Algorithm.Basic
import Hashwork.Json.Number
import Hashwork.Text.Quoted

/-!
# Algorithms in documents

An algorithm is stored as a document that consists of its name in quotes.  The name has to stand there
exactly as it is, without escapes.  A document of any other kind is refused by what it begins with, before
the rest of it is read.
-/

namespace Hashwork.Algorithm

open Json (Fault)

/-- The document that stores an algorithm. -/
def document (algorithm : Algorithm) : String :=
  "\"" ++ algorithm.name ++ "\""

/-- What is said of a value that is not a name. -/
def refusal (kind : String) : Fault :=
  .unsuitable ("invalid type: " ++ kind ++ ", expected a borrowed string")

/-- Why a text that does not begin with a quotation mark is refused. -/
def refuse (text : List Char) : Fault :=
  let word (rest : List Char) (word kind : String) : Fault :=
    match Json.readWord word.toList rest with
    | .ok () => refusal kind
    | .error fault => fault
  match text with
  | [] => .incomplete
  | 'n' :: rest => word rest "ull" "null"
  | 't' :: rest => word rest "rue" "boolean `true`"
  | 'f' :: rest => word rest "alse" "boolean `false`"
  | '[' :: _ => refusal "sequence"
  | '\x7b' :: _ => refusal "map"
  | first :: _ =>
    if first = '-' || first.isDigit then
      match Json.readNumber text with
      | .ok number => refusal number.text
      | .error fault => fault
    else .malformed

/-- Reads the document of an algorithm, with blanks around it. -/
def ofDocument (text : String) : Except Fault Algorithm :=
  match text.toList.dropWhile Json.isBlank with
  | '"' :: rest => do
    let (quoted, rest) ← Json.readString [] true rest
    if !quoted.verbatim then .error (refusal ("string " ++ Text.quoteString quoted.text))
    else
      match parse quoted.text with
      | .error fault => .error (.unsuitable fault.message)
      | .ok algorithm => if rest.all Json.isBlank then .ok algorithm else .error .malformed
  | text => .error (refuse text)

end Hashwork.Algorithm
