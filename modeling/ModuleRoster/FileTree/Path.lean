import ModuleRoster.Text.Lines

/-!
# FileTree/Path — paths as they are written

A path is cut at its slashes, and slashes in a row count as one.  What remains to be known is
whether it begins and whether it ends with one: the first makes it start at the root, the second
asks for a directory.
-/

namespace ModuleRoster

/-- **A path**: the names it goes through, and whether slashes stand before and after them. -/
structure Path where
  absolute : Bool
  names : List Text
  slash : Bool
  deriving DecidableEq, Repr

namespace Path

/-- The name that stays where it is. -/
def here : Text := ['.']

/-- The name that goes to the directory above. -/
def above : Text := ['.', '.']

/-- The texts between the slashes; there is one more than there are slashes. -/
def pieces : Text → List Text
  | [] => [[]]
  | c :: rest => if c = '/' then [] :: pieces rest else Text.growFirst c (pieces rest)

/-- Read a path. -/
def ofText (t : Text) : Path where
  absolute := t.head? == some '/'
  names := (pieces t).filter fun n => !n.isEmpty
  slash := t.getLast? == some '/'

end Path

end ModuleRoster
