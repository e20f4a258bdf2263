import ModuleRoster.Text.Order

/-!
# Text/Lines — texts and their lines

Ten characters end a line, and a carriage return with a line feed behind it ends one line, not two.
A break is no part of its line, and the last line needs none: `lines` of the empty text is empty,
and a final break opens no further line.
-/

namespace ModuleRoster.Text

/-! ## Taking a text apart -/

/-- The characters that end a line. -/
def lineBreaks : Text :=
  ['\n', '\x0b', '\x0c', '\r', '\x1c', '\x1d', '\x1e', '\u0085', '\u2028', '\u2029']

/-- Does the character end a line? -/
def isLineBreak (c : Char) : Bool := lineBreaks.contains c

/-- Put a character in front of the first text of a list, which is begun if there is none. -/
def growFirst (c : Char) : List Text → List Text
  | [] => [[c]]
  | l :: ls => (c :: l) :: ls

/-- The lines of a text, without their breaks. -/
def lines : Text → List Text
  | [] => []
  | '\r' :: '\n' :: rest => [] :: lines rest
  | c :: rest => if isLineBreak c then [] :: lines rest else growFirst c (lines rest)

/-- **One spelling for the three common breaks**: a carriage return, with the line feed behind it if
there is one, becomes a line feed. -/
def unifyBreaks : Text → Text
  | [] => []
  | '\r' :: '\n' :: rest => '\n' :: unifyBreaks rest
  | '\r' :: rest => '\n' :: unifyBreaks rest
  | c :: rest => c :: unifyBreaks rest

/-! ## Putting texts together -/

/-- Write texts one after the other, with `separator` between each two neighbours. -/
def join (separator : Text) : List Text → Text
  | [] => []
  | [t] => t
  | t :: u :: rest => t ++ separator ++ join separator (u :: rest)

/-- **One text to a line**: a line feed between each two, none after the last. -/
def unlines (ts : List Text) : Text := join ['\n'] ts

end ModuleRoster.Text
