import ModuleRoster.Proofs.FileTree.Beside
import ModuleRoster.Proofs.FileTree.Replaced
import ModuleRoster.Proofs.FileTree.Vacant

/-!
# Proofs/FileTree/Named — the place that a path names

A path names the place of its own entry, be it a link or nothing.  Which place that is depends on the
directories and links of the tree only (`Names.mono`), and it tells a path from every lengthened one
and these from each other (`Names.append`, `Names.suffix_unique`).
-/

namespace ModuleRoster.FileTree

variable {tree tree' : FileTree} {path suffix suffix' name : Text} {folder place place' : Place}
  {entry : Option Entry}

/-- **A path names a place**: what stands there is what is found at the path itself. -/
def Names (tree : FileTree) (path : Text) (place : Place) : Prop :=
  ∃ folder name, place = name :: folder ∧ tree.Finds .entry path folder name (tree.get? place)

theorem Finds.names (h : tree.Finds .entry path folder name entry) :
    tree.Names path (name :: folder) :=
  ⟨folder, name, rfl, (find_eq_ok_iff.1 h.found).2 ▸ h⟩

theorem Names.ne_nil (h : tree.Names path place) : place ≠ [] := by
  obtain ⟨folder, name, rfl, -⟩ := h
  exact List.cons_ne_nil name folder

theorem Names.unique (h : tree.Names path place) (h' : tree.Names path place') :
    place = place' := by
  obtain ⟨_, _, rfl, hfinds⟩ := h
  obtain ⟨_, _, rfl, hfinds'⟩ := h'
  cases hfinds.located.symm.trans hfinds'.located
  rfl

/-- **A path names the same place in every tree that has the ways.** -/
theorem Names.mono (ways : tree'.HasWays tree) (h : tree.Names path place) :
    tree'.Names path place := by
  obtain ⟨folder, name, rfl, hfinds⟩ := h
  have hsize := (find_eq_ok_iff.1 hfinds.found).1
  exact ⟨folder, name, rfl, locate_mono ways hfinds.located, find_eq_ok_iff.2 ⟨hsize, rfl⟩⟩

/-! ## Lengthened paths -/

/-- **A lengthened path names the place beside the one of the path.** -/
theorem Names.append (noSlash : '/' ∉ suffix) (hyphen : '-' ∈ suffix)
    (h : tree.Names path (name :: folder)) (h' : tree.Names (path ++ suffix) place') :
    place' = (name ++ suffix) :: folder := by
  obtain ⟨_, _, ⟨⟩, hfinds⟩ := h
  obtain ⟨_, _, rfl, hfinds'⟩ := h'
  have usable := (locate_eq_ok_iff.1 hfinds'.located).1
  cases (locate_append hfinds.located usable noSlash hyphen).symm.trans hfinds'.located
  rfl

theorem Names.ne_append (noSlash : '/' ∉ suffix) (hyphen : '-' ∈ suffix)
    (h : tree.Names path place) (h' : tree.Names (path ++ suffix) place') : place ≠ place' := by
  obtain ⟨folder, name, rfl, -⟩ := id h
  rw [h.append noSlash hyphen h']
  exact (beside_ne folder (List.ne_nil_of_mem hyphen)).symm

/-- **A place tells how the path was lengthened.** -/
theorem Names.suffix_unique (noSlash : '/' ∉ suffix) (hyphen : '-' ∈ suffix)
    (noSlash' : '/' ∉ suffix') (hyphen' : '-' ∈ suffix') (h : tree.Names (path ++ suffix) place)
    (h' : tree'.Names (path ++ suffix') place) : suffix = suffix' := by
  obtain ⟨last, hlast⟩ := exists_last_of_append path
  obtain ⟨_, _, rfl, hfinds⟩ := h
  obtain ⟨_, _, ⟨⟩, hfinds'⟩ := h'
  obtain ⟨_, ⟨⟩⟩ := hlast noSlash hyphen hfinds.located
  obtain ⟨_, hspot⟩ := hlast noSlash' hyphen' hfinds'.located
  simpa using congrArg Spot.name hspot

/-- **A lengthened path is vacant** if nothing stands at the place that it names. -/
theorem isVacant_append_iff (noSlash : '/' ∉ suffix) (hyphen : '-' ∈ suffix) :
    tree.IsVacant (path ++ suffix) ↔
      ∀ place, tree.Names (path ++ suffix) place → tree.get? place = none := by
  constructor
  · rintro vacant _ ⟨folder, name, rfl, hfinds⟩
    exact hfinds.entryAt?.symm.trans vacant
  · intro nothing
    obtain ⟨last, hlast⟩ := exists_last_of_append path
    refine isVacant_iff.2 fun spot hlocated => ?_
    obtain ⟨folder, rfl⟩ := hlast noSlash hyphen hlocated
    refine ⟨_, rfl, fun entry hfound => ?_⟩
    exact (find_eq_ok_iff.1 hfound).2.symm.trans (nothing _ (Finds.names ⟨hlocated, hfound⟩))

/-! ## Paths that do not go through their own entry -/

/-- **A path that avoids itself** names its place when the entry is gone. -/
theorem AvoidsItself.names_erase (avoids : tree.AvoidsItself path) (h : tree.Names path place) :
    (tree.erase place).Names path place := by
  obtain ⟨folder, name, rfl, hfinds⟩ := h
  have hsize := (find_eq_ok_iff.1 hfinds.found).1
  exact ⟨folder, name, rfl, avoids _ _ _ hfinds.located, find_eq_ok_iff.2 ⟨hsize, rfl⟩⟩

/-- So do the paths that are lengthened from it. -/
theorem AvoidsItself.names_append_erase (avoids : tree.AvoidsItself path) (noSlash : '/' ∉ suffix)
    (hyphen : '-' ∈ suffix) (h : tree.Names path place) (h' : tree.Names (path ++ suffix) place') :
    (tree.erase place).Names (path ++ suffix) place' := by
  obtain ⟨folder, name, rfl, hfinds⟩ := id h
  obtain rfl := h.append noSlash hyphen h'
  obtain ⟨_, _, ⟨⟩, hfinds'⟩ := h'
  have usable := (locate_eq_ok_iff.1 hfinds'.located).1
  have hsize := (find_eq_ok_iff.1 hfinds'.found).1
  exact ⟨folder, _, rfl, locate_append (avoids _ _ _ hfinds.located) usable noSlash hyphen,
    find_eq_ok_iff.2 ⟨hsize, rfl⟩⟩

end ModuleRoster.FileTree
