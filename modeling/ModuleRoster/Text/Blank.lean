import ModuleRoster.Text.Order

/-!
# Text/Blank — white space, and texts stripped of it

The blank characters are those that Unicode gives the property of white space, together with the
four information separators `U+001C` to `U+001F`.
-/

namespace ModuleRoster.Text

/-- The ranges of blank code points, both ends included. -/
def blankRanges : List (Nat × Nat) :=
  [(0x09, 0x0D), (0x1C, 0x20), (0x85, 0x85), (0xA0, 0xA0), (0x1680, 0x1680), (0x2000, 0x200A),
    (0x2028, 0x2029), (0x202F, 0x202F), (0x205F, 0x205F), (0x3000, 0x3000)]

/-- Is the character white space? -/
def isBlank (c : Char) : Bool :=
  blankRanges.any fun r => decide (r.1 ≤ c.toNat) && decide (c.toNat ≤ r.2)

/-- The text without the blanks at its beginning. -/
def trimStart (t : Text) : Text := t.dropWhile isBlank

/-- The text without the blanks at its end. -/
def trimEnd (t : Text) : Text := (trimStart t.reverse).reverse

/-- **The text without the blanks at both ends**; those inside it stay. -/
def trim (t : Text) : Text := trimEnd (trimStart t)

end ModuleRoster.Text
