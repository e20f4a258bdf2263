import ModuleRoster.Proofs.FileTree.Access

/-!
# Proofs/FileTree/Replaced — a path whose entry has become a file

A path may go through its own entry: with a link from `b` to a directory `d`, the path `b/../b`
leads through `b` to `b`.  If a file is put in the stead of the entry, such a path is blocked by it,
and no other is (`leads_insert_file_or_blocked`).  So the file is read at the path, or it is in the
way (`read_insert_file`, `read_insert_file_blocked`), and only a link can come to be in the way
(`avoidsItself_of_noLink`).
-/

namespace ModuleRoster.FileTree

variable {tree : FileTree} {purpose : Purpose} {links : Nat} {path : Text} {folder : Place}
  {name : Text} {names : List Text} {slash : Bool} {spot : Spot} {place : Place}
  {replaced : Option Entry} {content : Bytes}

/-! ## Paths that go through their own entry -/

/-- **The path does not go through its own entry**: it leads to the same place when the entry is
gone. -/
def AvoidsItself (tree : FileTree) (path : Text) : Prop :=
  ∀ folder name slash, tree.locate .entry path = .ok ⟨folder, some name, slash⟩ →
    (tree.erase (name :: folder)).locate .entry path = .ok ⟨folder, some name, slash⟩

instance : Decidable (tree.AvoidsItself path) :=
  match h : tree.locate .entry path with
  | .error _ => isTrue fun _ _ _ h' => nomatch h.symm.trans h'
  | .ok ⟨_, none, _⟩ => isTrue fun _ _ _ h' => nomatch h.symm.trans h'
  | .ok ⟨folder, some name, slash⟩ =>
      match h' : (tree.erase (name :: folder)).locate .entry path with
      | .error _ => isFalse fun avoids => nomatch h'.symm.trans (avoids _ _ _ h)
      | .ok spot =>
          decidable_of_iff (spot = ⟨folder, some name, slash⟩) <| by
            constructor
            · rintro rfl _ _ _ hlocated
              cases h.symm.trans hlocated
              exact h'
            · exact fun avoids => Except.ok.inj (h'.symm.trans (avoids _ _ _ h))

/-- **Only a link can stand in its own way.** -/
theorem avoidsItself_of_noLink (h : tree.Finds .entry path folder name replaced)
    (noDirectory : replaced ≠ some .directory) (noLink : ∀ target, replaced ≠ some (.link target)) :
    tree.AvoidsItself path := by
  intro folder' name' slash hlocated
  cases hlocated.symm.trans h.located
  refine locate_mono (fun place entry hentry noFile => ?_) h.located
  rw [get?_erase tree (List.cons_ne_nil name folder), if_neg]
  · exact hentry
  · rintro rfl
    -- what stood there has no way through it
    obtain rfl := (find_eq_ok_iff.1 h.found).2.symm.trans hentry
    match entry with
    | .file content => exact noFile content rfl
    | .directory => exact noDirectory rfl
    | .link target => exact noLink target rfl

/-! ## The file in the stead of the entry -/

/-- **A path is as before, or the new file blocks it.**  The induction is on the steps of the walk
before; a step through the place of the file is one through a link. -/
theorem leads_insert_file_or_blocked (content : Bytes) (hplace : place ≠ [])
    (noDirectory : tree.get? place ≠ some .directory)
    (h : Leads tree .entry links folder names slash spot) :
    Leads (tree.insert place (.file content)) .entry links folder names slash spot ∨
      ∀ purpose, (tree.insert place (.file content)).walk purpose links folder names slash
        = .error .notDirectory := by
  have hfind : ∀ {base other found}, tree.find base other = .ok found → other :: base ≠ place →
      (tree.insert place (.file content)).find base other = .ok found := by
    intro base other found hfound hne
    rw [find_eq_ok_iff, get?_insert tree hplace, if_neg hne]
    exact find_eq_ok_iff.1 hfound
  induction h with
  | done => exact Or.inl .done
  | stay _ ih =>
      rcases ih with h | blocked
      · exact Or.inl (.stay h)
      · exact Or.inr fun purpose => walk_here.trans (blocked purpose)
  | up _ ih =>
      rcases ih with h | blocked
      · exact Or.inl (.up h)
      · exact Or.inr fun purpose => walk_above.trans (blocked purpose)
  | unread proper follows => exact Or.inl (.unread proper follows)
  | read _ follows => exact absurd follows (by simp [Purpose.follows])
  | @enter _ base other rest _ _ proper more found _ ih =>
      have hne : other :: base ≠ place := fun h =>
        noDirectory (h ▸ (find_eq_ok_iff.1 found).2)
      rcases ih with h | blocked
      · exact Or.inl (.enter proper more (hfind found hne) h)
      · refine Or.inr fun purpose => ?_
        simp [walk_cons proper (Or.inl more), hfind found hne, more, blocked purpose]
  | @follow _ base other rest _ _ _ proper read found _ ih =>
      have more : rest ≠ [] := read.resolve_right (by simp [Purpose.follows])
      by_cases hsame : other :: base = place
      · subst hsame
        have hself : (tree.insert (other :: base) (.file content)).find base other
            = .ok (some (.file content)) := find_insert_self (find_eq_ok_iff.1 found).1
        refine Or.inr fun purpose => ?_
        simp [walk_cons proper (Or.inl more), hself, more]
      rcases ih with h | blocked
      · exact Or.inl (.follow proper read (hfind found hsame) h)
      · refine Or.inr fun purpose => ?_
        rw [walk_cons proper (Or.inl more), hfind found hsame]
        exact blocked purpose

variable (h : tree.Finds .entry path folder name replaced)
include h

/-- **A file put at the entry of a path is read at the path**, unless the path goes through it. -/
theorem read_insert_file (avoids : tree.AvoidsItself path) :
    (tree.insert (name :: folder) (.file content)).read path = .ok content := by
  have hlocated : (tree.insert (name :: folder) (.file content)).locate .entry path
      = .ok ⟨folder, some name, false⟩ :=
    locate_mono (hasWays_insert_file_iff_erase (List.cons_ne_nil name folder)).1
      (avoids _ _ _ h.located)
  have hself : (tree.insert (name :: folder) (.file content)).find folder name
      = .ok (some (.file content)) := find_insert_self (find_eq_ok_iff.1 h.found).1
  exact read_eq_ok_iff.2 ⟨folder, name, Finds.of_entry ⟨hlocated, hself⟩ nofun⟩

/-- **A path that goes through its own entry is blocked by the file.** -/
theorem read_insert_file_blocked (noDirectory : replaced ≠ some .directory)
    (through : ¬tree.AvoidsItself path) :
    (tree.insert (name :: folder) (.file content)).read path = .error .notDirectory := by
  obtain ⟨usable, leads⟩ := locate_eq_ok_iff.1 h.located
  have hfree : tree.get? (name :: folder) ≠ some .directory := fun hd =>
    noDirectory ((find_eq_ok_iff.1 h.found).2.symm.trans hd)
  rcases leads_insert_file_or_blocked content (List.cons_ne_nil name folder) hfree leads with
    leads | blocked
  · refine absurd (fun folder' name' slash hlocated => ?_) through
    cases hlocated.symm.trans h.located
    exact locate_mono (hasWays_insert_file_iff_erase (List.cons_ne_nil name folder)).2
      (locate_eq_ok_iff.2 ⟨usable, leads⟩)
  · have hlocated : (tree.insert (name :: folder) (.file content)).locate .reading path
        = .error .notDirectory := by
      simpa [locate, usable.noNull, usable.ne_nil, Nat.not_lt.2 usable.size_le] using
        blocked .reading
    simp [read, bind, Except.bind, hlocated]

end ModuleRoster.FileTree
