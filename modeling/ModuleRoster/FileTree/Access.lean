import ModuleRoster.FileTree.Walk

/-!
# FileTree/Access — reading and changing a tree through paths

Each operation locates its path and then looks at the entry there.  An operation that fails leaves
the tree alone, which is why it gives no tree back.
-/

namespace ModuleRoster.FileTree

/-! ## Reading -/

/-- The content of the file that a path leads to. -/
def read (tree : FileTree) (path : Text) : Except PathFault Bytes := do
  let spot ← tree.locate .reading path
  match spot.name with
  | none => .error .isDirectory
  | some name =>
      match ← tree.find spot.folder name with
      | none => .error .missing
      | some .directory => .error .isDirectory
      | some (.link _) => .error .tooManyLinks
      | some (.file content) => if spot.slash then .error .notDirectory else .ok content

/-- Does the path lead, through links, to something? -/
def leadsTo (tree : FileTree) (path : Text) : Bool :=
  match tree.locate .reading path with
  | .error _ => false
  | .ok ⟨_, none, _⟩ => true
  | .ok ⟨folder, some name, slash⟩ =>
      match tree.find folder name with
      | .ok (some .directory) => true
      | .ok (some (.file _)) => !slash
      | _ => false

/-! ## Changing -/

/-- **Open a file for writing**: it is made if it is missing, and emptied otherwise.  The place is
where the file stands, behind all links. -/
def create (tree : FileTree) (path : Text) : Except PathFault (Place × FileTree) := do
  let spot ← tree.locate .creating path
  match spot.name with
  | none => .error .isDirectory
  | some name =>
      if spot.slash then .error .isDirectory
      else
        match ← tree.find spot.folder name with
        | some .directory => .error .isDirectory
        | some (.link _) => .error .tooManyLinks
        | _ => .ok (name :: spot.folder, tree.insert (name :: spot.folder) (.file []))

/-- Write bytes at the end of an open file. -/
def append (tree : FileTree) (file : Place) (bytes : Bytes) : FileTree :=
  match tree.get? file with
  | some (.file content) => tree.insert file (.file (content ++ bytes))
  | _ => tree

/-- **Give an entry another path**, in the stead of the entry that is there.  No link is followed at
the last names, and neither a directory is moved nor one replaced. -/
def rename (tree : FileTree) (source target : Text) : Except PathFault FileTree := do
  let old ← tree.locate .entry source
  let new ← tree.locate .entry target
  match old.name, new.name with
  | some oldName, some newName =>
      match ← tree.find old.folder oldName with
      | none => .error .missing
      | some .directory => .error .isDirectory
      | some entry =>
          let replaced ← tree.find new.folder newName
          if old.slash || new.slash then .error .notDirectory
          else if replaced = some .directory then .error .isDirectory
          else .ok ((tree.erase (oldName :: old.folder)).insert (newName :: new.folder) entry)
  | _, _ => .error .busy

/-- **Remove a file or a link**; a link is not followed. -/
def remove (tree : FileTree) (path : Text) : Except PathFault FileTree := do
  let spot ← tree.locate .entry path
  match spot.name with
  | none => .error .isDirectory
  | some name =>
      match ← tree.find spot.folder name with
      | none => .error .missing
      | some .directory => .error .isDirectory
      | some _ =>
          if spot.slash then .error .notDirectory else .ok (tree.erase (name :: spot.folder))

/-- Write a file from one piece. -/
def write (tree : FileTree) (path : Text) (content : Bytes) : Except PathFault FileTree :=
  (tree.create path).map fun (file, tree) => tree.append file content

/-- Put a directory or a link at a path that leads to a free place, if it does. -/
def add? (tree : FileTree) (path : Text) (entry : Entry) : Option FileTree :=
  match tree.locate .entry path with
  | .ok ⟨folder, some name, _⟩ =>
      match tree.find folder name with
      | .ok none => some (tree.insert (name :: folder) entry)
      | _ => none
  | _ => none

/-! ## Listing -/

/-- A place as a path from the root. -/
def pathOf (p : Place) : Text := Text.join ['/'] p.reverse

/-- **All entries with their paths**, in the order of the paths. -/
def listing (tree : FileTree) : List (Text × Entry) :=
  (tree.entries.map fun x => (pathOf x.1, x.2)).mergeSort fun x y => Text.le x.1 y.1

end ModuleRoster.FileTree
