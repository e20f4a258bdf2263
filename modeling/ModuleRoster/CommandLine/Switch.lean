import ModuleRoster.Text.Quoted

/-!
# CommandLine/Switch — the options of the program

Each option has a letter, written behind one hyphen, and a word, written behind two.
-/

namespace ModuleRoster

/-- An option. -/
inductive Switch
  | help
  | output
  | verbose
  deriving DecidableEq, Repr

namespace Switch

/-- The options in the order in which they are listed. -/
def all : List Switch := [.help, .output, .verbose]

/-- The letter of an option. -/
def letter : Switch → Char
  | .help => 'h'
  | .output => 'o'
  | .verbose => 'v'

/-- The word of an option. -/
def word : Switch → Text
  | .help => "help".toList
  | .output => "output-file".toList
  | .verbose => "verbose".toList

/-- The option with a letter. -/
def ofLetter? (c : Char) : Option Switch := all.find? fun s => s.letter == c

/-- The options whose word begins with a text. -/
def candidates (beginning : Text) : List Switch := all.filter fun s => beginning.isPrefixOf s.word

/-- The word of an option with its hyphens. -/
def longForm (s : Switch) : Text := '-' :: '-' :: s.word

/-- Both forms of an option. -/
def forms (s : Switch) : Text := '-' :: s.letter :: '/' :: s.longForm

end Switch

end ModuleRoster
