/-!
# Columns

Text is filled up with blanks to a number of characters.  Longer text is left as it is.
-/

namespace Hashwork.Text

def padRight (width : Nat) (text : String) : String :=
  text ++ String.ofList (List.replicate (width - text.length) ' ')

def padLeft (width : Nat) (text : String) : String :=
  String.ofList (List.replicate (width - text.length) ' ') ++ text

end Hashwork.Text
