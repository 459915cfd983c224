import Hashwork.Text.Unprintable

/-!
# Quoted text

Error messages show characters between apostrophes and strings between double quotes.  Inside, the
closing mark and the backslash are escaped, a few controls have a letter of their own, and every other
character that would not be visible is given by its number.
-/

namespace Hashwork.Text

/-- A character given by its number, in lower-case hexadecimal without leading zeros. -/
def codeEscape (c : Char) : List Char :=
  ['\\', 'u', '\x7b'] ++ Nat.toDigits 16 c.toNat ++ ['\x7d']

def escape (mark c : Char) : List Char :=
  if c = '\x00' then ['\\', '0']
  else if c = '\t' then ['\\', 't']
  else if c = '\r' then ['\\', 'r']
  else if c = '\n' then ['\\', 'n']
  else if c = mark || c = '\\' then ['\\', c]
  else if isUnprintable c then codeEscape c
  else [c]

def quoteChar (c : Char) : String :=
  String.ofList ('\'' :: escape '\'' c ++ ['\''])

def quoteString (text : String) : String :=
  String.ofList ('"' :: text.toList.flatMap (escape '"') ++ ['"'])

end Hashwork.Text
