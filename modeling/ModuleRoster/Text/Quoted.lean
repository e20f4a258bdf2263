import ModuleRoster.Text.Numeral
import ModuleRoster.Text.Printable

/-!
# Text/Quoted — a text between quotation marks, fit for a message

The quoted form is a single line of printable characters.  It stands between apostrophes, or
between double quotation marks where that saves escaping: the text has an apostrophe and no double
quotation mark.
-/

namespace ModuleRoster.Text

/-- The mark that texts are quoted with. -/
def apostrophe : Char := '\x27'

/-- The mark for texts that an apostrophe would not suit. -/
def quotationMark : Char := '\x22'

/-- **The numeric escape of a character**: the shortest of the three widths that holds it. -/
def escapeCode (c : Char) : Text :=
  if c.toNat < 0x100 then '\\' :: 'x' :: hex 2 c.toNat
  else if c.toNat < 0x10000 then '\\' :: 'u' :: hex 4 c.toNat
  else '\\' :: 'U' :: hex 8 c.toNat

/-- A character as it stands between two `mark`s. -/
def escape (mark c : Char) : Text :=
  if c = mark ∨ c = '\\' then ['\\', c]
  else if c = '\t' then ['\\', 't']
  else if c = '\n' then ['\\', 'n']
  else if c = '\r' then ['\\', 'r']
  else if isPrintable c then [c]
  else escapeCode c

/-- The mark that a text is quoted with. -/
def markFor (t : Text) : Char :=
  if t.contains apostrophe && !t.contains quotationMark then quotationMark else apostrophe

/-- The quoted form of a text. -/
def quoted (t : Text) : Text :=
  [markFor t] ++ t.flatMap (escape (markFor t)) ++ [markFor t]

end ModuleRoster.Text
