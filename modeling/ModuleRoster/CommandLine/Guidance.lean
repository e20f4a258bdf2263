import ModuleRoster.CommandLine.Token

/-!
# CommandLine/Guidance — usage, help and complaints
-/

namespace ModuleRoster

/-- One line on how a program of this name is called. -/
def usageText (program : Text) : Text :=
  "usage: ".toList ++ program ++ " [-h] [-o OUTPUT_FILE] [-v]\n".toList

/-- The whole help. -/
def helpText (program : Text) : Text :=
  usageText program ++
    ("\nPrint the public standard library module names, one per line\n" ++
      "\noptions:\n" ++
      "  -h, --help            show this help message and exit\n" ++
      "  -o OUTPUT_FILE, --output-file OUTPUT_FILE\n" ++
      "                        write the list to this file instead of stdout\n" ++
      "  -v, --verbose         log debug info to stderr\n").toList

namespace Misuse

/-- **The words for a misuse.** -/
def message : Misuse → Text
  | .ambiguous word fits =>
      "ambiguous option: ".toList ++ word ++ " could match ".toList ++
        Text.join ", ".toList (fits.map Switch.longForm)
  | .valueRefused switch value =>
      "argument ".toList ++ switch.forms ++ ": ignored explicit argument ".toList ++
        Text.quoted value
  | .valueMissing switch => "argument ".toList ++ switch.forms ++ ": expected one argument".toList
  | .unrecognized words => "unrecognized arguments: ".toList ++ Text.join [' '] words

/-- What a program of this name writes when it is misused. -/
def complaint (program : Text) (misuse : Misuse) : Text :=
  usageText program ++ program ++ ": error: ".toList ++ misuse.message ++ ['\n']

end Misuse

end ModuleRoster
