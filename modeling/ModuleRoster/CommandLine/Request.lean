import ModuleRoster.CommandLine.Token

/-!
# CommandLine/Request — what a command line asks for

The words are taken from the left.  Letters may share a hyphen, and the first one that takes a
value takes all that is behind it.  Help is given as soon as it is asked for; words that are left
over are complained of at the end.
-/

namespace ModuleRoster

/-- How the program is to work.  An empty output path is as good as none. -/
structure Settings where
  verbose : Bool
  output : Option Text
  deriving DecidableEq, Repr

/-- **What a command line asks for.** -/
inductive Request
  | help
  | list (settings : Settings)
  deriving DecidableEq, Repr

/-! ## A single word -/

/-- The value of an option in the end. -/
inductive Value
  | given (value : Text)
  /-- The next word is the value. -/
  | awaited
  deriving DecidableEq, Repr

/-- **The options in one word**: those without a value, then perhaps the output option. -/
structure Cluster where
  flags : List Switch
  output : Option Value
  deriving DecidableEq, Repr

namespace Cluster

/-- A value that is attached to the output option; the divider counts as no value. -/
def attach (value : Text) : Value := .given (if value = Token.dividerWord then [] else value)

/-- An option and the letters and the value behind it. -/
def ofLetters (s : Switch) : Text → Except Misuse Cluster
  | [] => if s = .output then .ok ⟨[], some .awaited⟩ else .ok ⟨[s], none⟩
  | c :: rest =>
      if s = .output then .ok ⟨[], some (attach (c :: rest))⟩
      else
        match Switch.ofLetter? c with
        | none => .error (.valueRefused s (c :: rest))
        | some s' => (ofLetters s' rest).map fun c => { c with flags := s :: c.flags }

/-- The options in a word that is written in a form with a value attached, if any. -/
def ofOption (s : Switch) (form : Form) (value : Option Text) : Except Misuse Cluster :=
  match value with
  | none => ofLetters s []
  | some value =>
      if s = .output then .ok ⟨[], some (attach value)⟩
      else if form = .word ∨ value = [] then .error (.valueRefused s value)
      else ofLetters s value

/-- Does the word ask for help? -/
def asksHelp (c : Cluster) : Bool := c.flags.contains .help

end Cluster

/-! ## The whole line -/

namespace Settings

/-- The settings before the first word. -/
def initial : Settings := ⟨false, none⟩

/-- The settings after the options of a word, with the value of its output option. -/
def after (s : Settings) (c : Cluster) (value : Option Text) : Settings where
  verbose := s.verbose || c.flags.contains .verbose
  output := value.or s.output

end Settings

namespace Request

/-- Take the words from the left, with the settings so far and the words left over so far. -/
def ofTokens (s : Settings) (left : List Text) : List Token → Except Misuse Request
  | [] => if left = [] then .ok (.list s) else .error (.unrecognized left)
  | .operand word :: rest => ofTokens s (left ++ [word]) rest
  | .unknown word :: rest => ofTokens s (left ++ [word]) rest
  | .divider :: rest => ofTokens s (left ++ [Token.dividerWord]) rest
  | .option switch form value :: rest =>
      match Cluster.ofOption switch form value with
      | .error misuse => .error misuse
      | .ok c =>
          match c.output, rest with
          | none, rest =>
              if c.asksHelp then .ok .help else ofTokens (s.after c none) left rest
          | some (.given value), rest =>
              if c.asksHelp then .ok .help else ofTokens (s.after c (some value)) left rest
          | some .awaited, .operand value :: rest =>
              if c.asksHelp then .ok .help else ofTokens (s.after c (some value)) left rest
          | some .awaited, _ => .error (.valueMissing .output)

/-- **What a command line asks for, or what is wrong with it.** -/
def ofWords (words : List Text) : Except Misuse Request :=
  (Token.ofWords words).bind (ofTokens .initial [])

end Request

end ModuleRoster
