import ModuleRoster.Proofs.FileTree.Access

/-!
# Proofs/FileTree/Moved — what is read through an entry that was moved

A file is moved over the entry of a path, and the path is read: if it leads to a file at all, it
leads to the one that was moved (`content_of_read_file`).  A link may be moved as well.  It stays in
its folder, so its target is walked from where it was walked before, and a path that led to the new
place leads on to where the link led (`LinkIsMoved.arrives`).  Whether it arrives there is another
matter: what stood at the new place is gone, and so is the link at the old one.
-/

namespace ModuleRoster

/-- The place of the last name. -/
def Spot.place? (spot : Spot) : Option Place := spot.name.map fun name => name :: spot.folder

namespace FileTree

variable {tree before after : FileTree} {purpose : Purpose} {links : Nat} {path : Text}
  {folder base : Place} {name target : Text} {names more rest : List Text} {slash : Bool}
  {spot : Spot} {place goal old : Place} {replaced : Option Entry} {content : Bytes}

/-! ## A file that was moved -/

/-- A file that is moved brings no way with it. -/
theorem hasWays_of_move_file {new : Place} (hold : old ≠ []) (hnew : new ≠ []) :
    tree.HasWays ((tree.erase old).insert new (.file content)) :=
  (hasWays_of_erase hold).trans (hasWays_of_insert_file hnew)

/-- **What is read where a file was put** is the file, if the path leads to a file at all. -/
theorem content_of_read_file {bytes : Bytes} (ways : before.HasWays after)
    (h : before.Finds .entry path folder name replaced)
    (hfile : after.get? (name :: folder) = some (.file content))
    (hread : after.read path = .ok bytes) : bytes = content := by
  obtain ⟨base, last, hfinds⟩ := read_eq_ok_iff.1 hread
  obtain ⟨usable, leads⟩ := locate_eq_ok_iff.1 hfinds.located
  rcases leads.entry_or_link with leads | ⟨base', last', slash, target, _, leads, found, _⟩
  · have hbefore := locate_mono ways (locate_eq_ok_iff.2 ⟨usable, leads⟩)
    cases hbefore.symm.trans h.located
    have := (find_eq_ok_iff.1 hfinds.found).2.symm.trans hfile
    simpa using this
  · -- the link would have to stand where the file stands
    have hbefore := locate_mono ways (locate_eq_ok_iff.2 ⟨usable, leads⟩)
    cases hbefore.symm.trans h.located
    cases (find_eq_ok_iff.1 found).2.symm.trans hfile

/-! ## Walks that end at a file -/

/-- **A walk for reading arrives at the file at a place.** -/
def ArrivesAtFile (tree : FileTree) (links : Nat) (folder : Place) (names : List Text)
    (place : Place) : Prop :=
  ∃ slash spot content, Leads tree .reading links folder names slash spot ∧
    spot.place? = some place ∧ tree.get? place = some (.file content)

namespace ArrivesAtFile

/-- What is read has been arrived at. -/
theorem of_read (h : tree.read path = .ok content) : ∃ place,
    tree.ArrivesAtFile maxLinks [] (Path.ofText path).names place ∧
      tree.get? place = some (.file content) := by
  obtain ⟨folder, name, hlocated, hfound⟩ := read_eq_ok_iff.1 h
  have hfile := (find_eq_ok_iff.1 hfound).2
  exact ⟨_, ⟨_, _, _, (locate_eq_ok_iff.1 hlocated).2, rfl, hfile⟩, hfile⟩

theorem stay (h : tree.ArrivesAtFile links folder (Path.here :: names) place) :
    tree.ArrivesAtFile links folder names place := by
  obtain ⟨slash, spot, content, leads, hplace, hfile⟩ := h
  exact ⟨slash, spot, content, walk_eq_ok_iff.1 (walk_here.symm.trans (walk_of_leads leads)),
    hplace, hfile⟩

theorem up (h : tree.ArrivesAtFile links folder (Path.above :: names) place) :
    tree.ArrivesAtFile links folder.tail names place := by
  obtain ⟨slash, spot, content, leads, hplace, hfile⟩ := h
  exact ⟨slash, spot, content, walk_eq_ok_iff.1 (walk_above.symm.trans (walk_of_leads leads)),
    hplace, hfile⟩

/-- **What stands at the first name decides**: a file is the end, a directory is entered and a link
is followed. -/
theorem step (h : tree.ArrivesAtFile links folder (name :: more) place)
    (proper : Path.IsProper name) :
    (∃ content, tree.get? (name :: folder) = some (.file content) ∧ more = [] ∧
        place = name :: folder) ∨
      (tree.get? (name :: folder) = some .directory ∧
        tree.ArrivesAtFile links (name :: folder) more place) ∨
      ∃ target fewer, tree.get? (name :: folder) = some (.link target) ∧ links = fewer + 1 ∧
        tree.ArrivesAtFile fewer (linkBase folder target) ((Path.ofText target).names ++ more)
          place := by
  obtain ⟨slash, spot, content, leads, hplace, hfile⟩ := h
  cases leads with
  | stay => exact absurd rfl proper.ne_here
  | up => exact absurd rfl proper.ne_above
  | unread _ follows => exact absurd follows (by simp [Purpose.follows])
  | read =>
      obtain rfl : name :: folder = place := Option.some.inj hplace
      exact Or.inl ⟨content, hfile, rfl, rfl⟩
  | enter _ _ found onward =>
      exact Or.inr (Or.inl ⟨(find_eq_ok_iff.1 found).2, _, _, _, onward, hplace, hfile⟩)
  | follow _ _ found onward =>
      exact Or.inr (Or.inr ⟨_, _, (find_eq_ok_iff.1 found).2, rfl, _, _, _, onward, hplace, hfile⟩)

end ArrivesAtFile

/-! ## A link that was moved -/

/-- **A link stands at another place than before**, and all else stands where it stood. -/
structure LinkIsMoved (before after : FileTree) (old new : Place) (target : Text) : Prop where
  stood : before.get? old = some (.link target)
  gone : after.get? old = none
  stands : after.get? new = some (.link target)
  others : ∀ place, place ≠ old → place ≠ new → after.get? place = before.get? place

/-- A link that is cleared and put elsewhere is moved. -/
theorem linkIsMoved_of_get? {new : Place} (hold : old ≠ []) (hnew : new ≠ []) (hne : old ≠ new)
    (h : tree.get? old = some (.link target)) :
    LinkIsMoved tree ((tree.erase old).insert new (.link target)) old new target := by
  refine ⟨h, ?_, ?_, fun place hplace hplace' => ?_⟩
  · rw [get?_insert _ hnew, if_neg hne, get?_erase _ hold, if_pos rfl]
  · rw [get?_insert _ hnew, if_pos rfl]
  · rw [get?_insert _ hnew, if_neg hplace', get?_erase _ hold, if_neg hplace]

/-- **A path that ends in a link leads to a file through the link.** -/
theorem Finds.leads_of_link {last : Text}
    (hlink : tree.Finds .entry path base last (some (.link target)))
    (hfile : tree.Finds purpose path folder name (some (.file content))) :
    ∃ purpose links slash spot, Leads tree purpose links (linkBase base target)
      (Path.ofText target).names slash spot ∧ spot.place? = some (name :: folder) := by
  obtain ⟨-, atLink⟩ := locate_eq_ok_iff.1 hlink.located
  obtain ⟨-, atFile⟩ := locate_eq_ok_iff.1 hfile.located
  rcases atFile.entry_or_link with direct | ⟨_, _, _, _, _, direct, found, onward⟩
  · cases atLink.unique direct
    cases hlink.found.symm.trans hfile.found
  · cases atLink.unique direct
    cases hlink.found.symm.trans found
    exact ⟨_, _, _, _, onward, rfl⟩

namespace LinkIsMoved

variable {new : Place} {newName : Text} {budget : Nat}

/-- What stands elsewhere stood there before. -/
theorem before_of_after {entry : Entry} (moved : LinkIsMoved before after old new target)
    (hne : place ≠ new) (h : after.get? place = some entry) : before.get? place = some entry := by
  have hold : place ≠ old := fun hsame => by
    subst hsame
    cases moved.gone.symm.trans h
  exact (moved.others place hold hne).symm.trans h

/-- Elsewhere a walk after the move takes the step that it took before. -/
theorem step_elsewhere (moved : LinkIsMoved before after old new target)
    (hne : name :: folder ≠ new) (proper : Path.IsProper name)
    (h : after.ArrivesAtFile links folder (name :: more) place) :
    (∃ content, before.get? (name :: folder) = some (.file content) ∧ more = [] ∧
        place = name :: folder) ∨
      (before.get? (name :: folder) = some .directory ∧
        after.ArrivesAtFile links (name :: folder) more place) ∨
      ∃ target fewer, before.get? (name :: folder) = some (.link target) ∧ links = fewer + 1 ∧
        after.ArrivesAtFile fewer (linkBase folder target) ((Path.ofText target).names ++ more)
          place := by
  rcases h.step proper with ⟨content, hentry, hend⟩ | ⟨hentry, onward⟩ | ⟨t, fewer, hentry, onward⟩
  · exact Or.inl ⟨content, moved.before_of_after hne hentry, hend⟩
  · exact Or.inr (Or.inl ⟨moved.before_of_after hne hentry, onward⟩)
  · exact Or.inr (Or.inr ⟨t, fewer, moved.before_of_after hne hentry, onward⟩)

/-- **At the new place a walk after the move follows the link.** -/
theorem step_new (moved : LinkIsMoved before after old (name :: folder) target)
    (proper : Path.IsProper name) (h : after.ArrivesAtFile links folder (name :: more) place) :
    ∃ fewer, links = fewer + 1 ∧ after.ArrivesAtFile fewer (linkBase folder target)
      ((Path.ofText target).names ++ more) place := by
  rcases h.step proper with ⟨_, hentry, _⟩ | ⟨hentry, _⟩ | ⟨_, fewer, hentry, hlinks, onward⟩
  · cases hentry.symm.trans moved.stands
  · cases hentry.symm.trans moved.stands
  · cases hentry.symm.trans moved.stands
    exact ⟨fewer, hlinks, onward⟩

/-- **Walks that ended at the new place, or where the link led, end where it led**, if they now end
at a file.  The outer induction is on the links that may be followed: a walk that comes to the new
place follows the link and starts anew from its target.  The inner one is on the steps of the walk
before, which up to the new place are those of the walk after. -/
theorem arrives (moved : LinkIsMoved before after old (newName :: base) target)
    (hgoal : before.get? goal = some (.file content))
    (aim : ∃ purpose links slash spot, Leads before purpose links (linkBase base target)
      (Path.ofText target).names slash spot ∧ spot.place? = some goal) :
    ∀ {purpose links folder names slash spot}, Leads before purpose links folder names slash spot →
      (spot.place? = some goal ∨ spot.place? = some (newName :: base)) →
      after.ArrivesAtFile budget folder (names ++ rest) place → rest = [] ∧ place = goal := by
  induction budget using Nat.strongRecOn generalizing rest with
  | ind budget anew =>
    intro purpose links folder names slash spot leads
    have atNew : ∀ {folder name more}, Path.IsProper name → name :: folder = newName :: base →
        after.ArrivesAtFile budget folder (name :: more) place → more = [] ∧ place = goal := by
      intro folder name more proper hsame arrives
      cases hsame
      obtain ⟨fewer, rfl, onward⟩ := moved.step_new proper arrives
      obtain ⟨_, _, _, _, toGoal, hspot⟩ := aim
      exact anew fewer (Nat.lt_succ_self fewer) toGoal (Or.inl hspot) onward
    have atLast : ∀ {folder name}, Path.IsProper name →
        (some (name :: folder) = some goal ∨ some (name :: folder) = some (newName :: base)) →
        after.ArrivesAtFile budget folder (name :: rest) place → rest = [] ∧ place = goal := by
      intro folder name proper hspot arrives
      by_cases hnew : name :: folder = newName :: base
      · exact atNew proper hnew arrives
      obtain rfl : name :: folder = goal :=
        hspot.elim Option.some.inj fun h => absurd (Option.some.inj h) hnew
      rcases moved.step_elsewhere hnew proper arrives with
        ⟨_, _, hend⟩ | ⟨hentry, _⟩ | ⟨_, _, hentry, _⟩
      · exact hend
      · cases hentry.symm.trans hgoal
      · cases hentry.symm.trans hgoal
    induction leads with
    | done => exact fun hspot => by rcases hspot with h | h <;> cases h
    | stay _ ih => exact fun hspot arrives => ih hspot arrives.stay
    | up _ ih => exact fun hspot arrives => ih hspot arrives.up
    | unread proper => exact fun hspot arrives => atLast proper hspot arrives
    | read proper => exact fun hspot arrives => atLast proper hspot arrives
    | @enter _ folder name _ _ _ proper ahead found _ ih =>
        intro hspot arrives
        have hdirectory := (find_eq_ok_iff.1 found).2
        by_cases hnew : name :: folder = newName :: base
        · exact absurd (List.append_eq_nil_iff.1 (atNew proper hnew arrives).1).1 ahead
        rcases moved.step_elsewhere hnew proper arrives with
          ⟨_, hentry, _⟩ | ⟨_, arrives⟩ | ⟨_, _, hentry, _⟩
        · cases hentry.symm.trans hdirectory
        · exact ih hspot arrives
        · cases hentry.symm.trans hdirectory
    | @follow _ folder name _ _ _ _ proper _ found onward _ =>
        intro hspot arrives
        have hlink := (find_eq_ok_iff.1 found).2
        by_cases hnew : name :: folder = newName :: base
        · obtain ⟨hnil, hplace⟩ := atNew proper hnew arrives
          exact ⟨(List.append_eq_nil_iff.1 hnil).2, hplace⟩
        rcases moved.step_elsewhere hnew proper arrives with
          ⟨_, hentry, _⟩ | ⟨hentry, _⟩ | ⟨_, fewer, hentry, rfl, followed⟩
        · cases hentry.symm.trans hlink
        · cases hentry.symm.trans hlink
        · cases hentry.symm.trans hlink
          refine anew fewer (Nat.lt_succ_self fewer) onward hspot ?_
          rw [List.append_assoc]
          exact followed

/-- **What is read where a link was put** is the file that the link led to. -/
theorem content_of_read (moved : LinkIsMoved before after old (newName :: base) target)
    (h : before.Finds .entry path base newName replaced)
    (hgoal : before.get? goal = some (.file content))
    (aim : ∃ purpose links slash spot, Leads before purpose links (linkBase base target)
      (Path.ofText target).names slash spot ∧ spot.place? = some goal) {bytes : Bytes}
    (hread : after.read path = .ok bytes) : bytes = content := by
  obtain ⟨place, arrived, hfile⟩ := ArrivesAtFile.of_read hread
  rw [← List.append_nil (Path.ofText path).names] at arrived
  obtain ⟨-, rfl⟩ := moved.arrives hgoal aim (locate_eq_ok_iff.1 h.located).2 (Or.inr rfl) arrived
  -- a file stands there after the move, so it is not where the link was put
  have hne : place ≠ newName :: base := fun hsame => by
    subst hsame
    cases hfile.symm.trans moved.stands
  simpa using (moved.before_of_after hne hfile).symm.trans hgoal

end LinkIsMoved

end FileTree

end ModuleRoster
