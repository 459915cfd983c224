import Hashwork.CommandLine.Options
import Hashwork.Text.Pad

/-!
# Help

The help on a command begins with its name and version, and lists how it is called, its flags, its
settings, and the commands that may follow.
-/

namespace Hashwork.CommandLine

namespace Grammar

/-- The words of a command's name, joined by hyphens, and the version.  The command for help has none. -/
def headline (grammar : Grammar) : String :=
  "-".intercalate grammar.name ++ " " ++ if grammar.name = helpGrammar.name then "" else version

def usage (grammar : Grammar) : List String :=
  let settings := if grammar.settings.isEmpty then [] else ["[OPTIONS]"]
  let command := if grammar.commands.isEmpty then [] else ["<SUBCOMMAND>"]
  ["USAGE:", "    " ++ " ".intercalate (grammar.name ++ ["[FLAGS]"] ++ settings ++ command)]

def letterText : Option Char → String
  | some letter => String.ofList ['-', letter, ',', ' ']
  | none => "    "

/-- A list under a title, with what is said about each item in a column of its own. -/
def columns (title : String) (items : List (String × String)) : List String :=
  if items.isEmpty then []
  else
    let width := (items.map fun (item, _) ↦ item.length).foldl max 0
    ["", title] ++ items.map fun (item, about) ↦
      "    " ++ Text.padRight width item ++ "    " ++ about

def flagItem (flag : Flag) : String × String :=
  (letterText flag.short ++ flag.shown, flag.about)

def settingItem (setting : Setting) : String × String :=
  (letterText setting.short ++ setting.shown,
    match setting.fallback with
    | some value => setting.about ++ " [default: " ++ value ++ "]"
    | none => setting.about)

def help (grammar : Grammar) : List String :=
  [grammar.headline, grammar.about, ""] ++ grammar.usage ++
    columns "FLAGS:" ((helpFlag :: versionFlag :: grammar.flags).map flagItem) ++
    columns "OPTIONS:" (grammar.settings.map settingItem) ++
    columns "SUBCOMMANDS:" (grammar.commands.mergeSort fun (name, _) (other, _) ↦ name ≤ other)

end Grammar

namespace Stop

/-- What is printed, line by line. -/
def lines : Stop → List String
  | help grammar | missingCommand grammar => grammar.help
  | version grammar => [grammar.headline]
  | fault _ (.invalidValue shown reason) => [Fault.message (.invalidValue shown reason)]
  | fault grammar (.misspelledCommand name meant) =>
    [Fault.message (.misspelledCommand name meant), "\tDid you mean '" ++ meant ++ "'?", ""] ++
      grammar.usage ++ ["", "For more information try --help"]
  | fault grammar other =>
    [other.message, ""] ++ grammar.usage ++ ["", "For more information try --help"]

/-- Help that was asked for is no fault. -/
def isFault : Stop → Bool
  | help _ | version _ => false
  | missingCommand _ | fault .. => true

end Stop

end Hashwork.CommandLine
