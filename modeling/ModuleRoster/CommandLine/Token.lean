import ModuleRoster.CommandLine.Switch
import ModuleRoster.Text.Digit
import ModuleRoster.Text.Lines

/-!
# CommandLine/Token — what a word of a command line is

A word is an operand or an option, and an option may have a value attached to it.  The word of an
option may be cut short as long as it fits one option only.  A word with a hyphen in front that is
no option is still an operand if it is a negative number or contains a space.  After the divider
`--` all words are operands.
-/

namespace ModuleRoster

/-- **What is wrong with a command line.** -/
inductive Misuse
  /-- A word fits several options. -/
  | ambiguous (word : Text) (fits : List Switch)
  /-- An option that takes no value has one attached. -/
  | valueRefused (switch : Switch) (value : Text)
  /-- An option that takes a value has none. -/
  | valueMissing (switch : Switch)
  /-- Words are left over. -/
  | unrecognized (words : List Text)
  deriving DecidableEq, Repr

/-- How an option is written. -/
inductive Form
  | letter
  | word
  deriving DecidableEq, Repr

/-- **A word of a command line.** -/
inductive Token
  | operand (word : Text)
  | divider
  | option (switch : Switch) (form : Form) (value : Option Text)
  | unknown (word : Text)
  deriving DecidableEq, Repr

namespace Token

/-! ## Words with a hyphen -/

/-- The text before the first equals sign, and the one after it. -/
def splitValue : Text → Text × Option Text
  | [] => ([], none)
  | c :: rest =>
      if c = '=' then ([], some rest)
      else ((c :: (splitValue rest).1), (splitValue rest).2)

/-- What is attached to the letter of an option; an equals sign right after the letter may stand
between them. -/
def attached : Text → Option Text
  | [] => none
  | '=' :: value => some value
  | value => some value

/-- Is the text a number: digits, perhaps with a full stop before the last of them? -/
def isNumeral (t : Text) : Bool :=
  match t.dropWhile Text.isDigit with
  | [] => !t.isEmpty
  | '.' :: places => !places.isEmpty && places.all Text.isDigit
  | _ => false

/-- Is the text a number, or one with a line feed behind it? -/
def isNumeralLine (t : Text) : Bool :=
  isNumeral t || (t.getLast? == some '\n' && isNumeral t.dropLast)

/-- A word that begins with a hyphen and is no option; `rest` is what follows the hyphen. -/
def ofOther (rest : Text) : Token :=
  if isNumeralLine rest || rest.contains ' ' then .operand ('-' :: rest) else .unknown ('-' :: rest)

/-! ## All words -/

/-- **What a word is**, before a divider. -/
def ofWord : Text → Except Misuse Token
  | '-' :: '-' :: rest =>
      match Switch.candidates (splitValue rest).1 with
      | [] => .ok (ofOther ('-' :: rest))
      | [s] => .ok (.option s .word (splitValue rest).2)
      | fits => .error (.ambiguous ('-' :: '-' :: rest) fits)
  | '-' :: c :: rest =>
      match Switch.ofLetter? c with
      | some s => .ok (.option s .letter (attached rest))
      | none => .ok (ofOther (c :: rest))
  | word => .ok (.operand word)

/-- The word after which all words are operands. -/
def dividerWord : Text := ['-', '-']

/-- **The words of a command line**, or the first that fits several options. -/
def ofWords : List Text → Except Misuse (List Token)
  | [] => .ok []
  | word :: words =>
      if word = dividerWord then .ok (.divider :: words.map .operand)
      else
        match ofWord word with
        | .error misuse => .error misuse
        | .ok token => (ofWords words).map (token :: ·)

end Token

end ModuleRoster
