import ModuleRoster.Encoding.Utf8
import ModuleRoster.FileTree.Basic
import ModuleRoster.FileTree.Path

/-!
# FileTree/Walk — where a path leads

A path is walked name by name.  Every name but the last has to stand for a directory, and a link on
the way is replaced by the names of its target.  `FileTree.locate` ends at a `Spot`: the directory
walked to, and the last name, which need not exist.  Whether a link at the last name is followed
depends on what the path is wanted for.
-/

namespace ModuleRoster

/-! ## What can be wrong with a path -/

/-- Why a path cannot be used. -/
inductive PathFault
  /-- It contains the null character. -/
  | nullCharacter
  /-- There is nothing. -/
  | missing
  /-- What should be a directory is none. -/
  | notDirectory
  /-- What should not be a directory is one. -/
  | isDirectory
  /-- A name, or the whole path, has too many bytes. -/
  | nameTooLong
  /-- It ends in a directory that cannot be replaced: the one above, the same one or the root. -/
  | busy
  /-- More links have to be followed than are allowed. -/
  | tooManyLinks
  deriving DecidableEq, Repr

/-- The most bytes that a name may have. -/
def maxNameSize : Nat := 255

/-- The most bytes that a path may have. -/
def maxPathSize : Nat := 4095

/-- The most links that are followed on the way along one path. -/
def maxLinks : Nat := 40

/-! ## Walking -/

/-- **Where a path leads**: a directory and the last name, which is missing if the path ends in
the directory itself.  `slash` tells whether the path asks for a directory. -/
structure Spot where
  folder : Place
  name : Option Text
  slash : Bool
  deriving DecidableEq, Repr

/-- What a path is wanted for. -/
inductive Purpose
  /-- The entry itself, be it a link. -/
  | entry
  /-- The content, through links. -/
  | reading
  /-- A file to be made or emptied, through links. -/
  | creating
  deriving DecidableEq, Repr

/-- Is a link at the last name followed?  A file to be made has no slash behind its name, so such a
path is not looked at any further. -/
def Purpose.follows : Purpose → (slash : Bool) → Bool
  | .entry, _ => false
  | .reading, _ => true
  | .creating, slash => !slash

namespace FileTree

/-- Look a name up in a directory. -/
def find (tree : FileTree) (folder : Place) (name : Text) : Except PathFault (Option Entry) :=
  if maxNameSize < Utf8.size name then .error .nameTooLong
  else .ok (tree.get? (name :: folder))

/-- Walk on from a directory, with `onLink` to walk on from a link that is followed: it is given
the directory to start from, all names to come, and whether slashes are behind them. -/
def walkWith (tree : FileTree) (purpose : Purpose)
    (onLink : Place → List Text → Bool → Except PathFault Spot) :
    Place → List Text → Bool → Except PathFault Spot
  | folder, [], slash => .ok ⟨folder, none, slash⟩
  | folder, name :: rest, slash =>
      if name = Path.here then walkWith tree purpose onLink folder rest slash
      else if name = Path.above then walkWith tree purpose onLink folder.tail rest slash
      else if rest = [] ∧ purpose.follows slash = false then .ok ⟨folder, some name, slash⟩
      else
        match tree.find folder name with
        | .error fault => .error fault
        | .ok (some (.link target)) =>
            let path := Path.ofText target
            onLink (if path.absolute then [] else folder) (path.names ++ rest)
              (slash || (rest.isEmpty && path.slash))
        | .ok found =>
            if rest = [] then .ok ⟨folder, some name, slash⟩
            else
              match found with
              | some .directory => walkWith tree purpose onLink (name :: folder) rest slash
              | some _ => .error .notDirectory
              | none => .error .missing

/-- Walk on from a directory, following at most `links` links. -/
def walk (tree : FileTree) (purpose : Purpose) :
    (links : Nat) → Place → List Text → Bool → Except PathFault Spot
  | 0 => tree.walkWith purpose fun _ _ _ => .error .tooManyLinks
  | links + 1 => tree.walkWith purpose (tree.walk purpose links)

/-- **Where a path leads, from the root.** -/
def locate (tree : FileTree) (purpose : Purpose) (path : Text) : Except PathFault Spot :=
  if path.contains '\x00' then .error .nullCharacter
  else if path = [] then .error .missing
  else if maxPathSize < Utf8.size path then .error .nameTooLong
  else tree.walk purpose maxLinks [] (Path.ofText path).names (Path.ofText path).slash

end FileTree

end ModuleRoster
