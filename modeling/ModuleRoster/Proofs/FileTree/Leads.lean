import ModuleRoster.FileTree.Access

/-!
# Proofs/FileTree/Leads — the walks that arrive

`FileTree.walk` names a fault for every way to go astray.  `Leads` is the relation of the walks that
arrive, with one constructor for each step that a walk can take, and `walk_eq_ok_iff` says that the
two agree.  What another purpose or another tree does to a path is then an induction over steps:

* `Leads.of_entry`, `Leads.entry_or_link` — walks for different purposes part at a link only, and
  only if it is the last thing on the way;
* `Leads.mono` — a walk needs nothing of the tree but directories and links;
* `Leads.sibling` — the last name of a path has no part in the walk to its folder.
-/

namespace ModuleRoster

/-- A name that is looked up, and is no step to stay or to go up. -/
structure Path.IsProper (name : Text) : Prop where
  ne_here : name ≠ Path.here
  ne_above : name ≠ Path.above

namespace FileTree

/-- Where a walk goes on from a link that is met in a folder. -/
def linkBase (folder : Place) (target : Text) : Place :=
  if (Path.ofText target).absolute then [] else folder

/-- **The walks that arrive**, with the number of links that may be followed, the folder to start
from, the names to come and whether slashes are behind them. -/
inductive Leads (tree : FileTree) (purpose : Purpose) :
    Nat → Place → List Text → Bool → Spot → Prop
  /-- No name is left. -/
  | done {links folder slash} : Leads tree purpose links folder [] slash ⟨folder, none, slash⟩
  | stay {links folder rest slash spot} (onward : Leads tree purpose links folder rest slash spot) :
      Leads tree purpose links folder (Path.here :: rest) slash spot
  | up {links folder rest slash spot}
      (onward : Leads tree purpose links folder.tail rest slash spot) :
      Leads tree purpose links folder (Path.above :: rest) slash spot
  /-- The last name, where nothing is looked up. -/
  | unread {links folder name slash} (proper : Path.IsProper name)
      (follows : purpose.follows slash = false) :
      Leads tree purpose links folder [name] slash ⟨folder, some name, slash⟩
  /-- The last name, where no link is found. -/
  | read {links folder name slash entry} (proper : Path.IsProper name)
      (follows : purpose.follows slash = true) (found : tree.find folder name = .ok entry)
      (noLink : ∀ target, entry ≠ some (.link target)) :
      Leads tree purpose links folder [name] slash ⟨folder, some name, slash⟩
  | enter {links folder name rest slash spot} (proper : Path.IsProper name) (more : rest ≠ [])
      (found : tree.find folder name = .ok (some .directory))
      (onward : Leads tree purpose links (name :: folder) rest slash spot) :
      Leads tree purpose links folder (name :: rest) slash spot
  | follow {links folder name rest slash target spot} (proper : Path.IsProper name)
      (read : rest ≠ [] ∨ purpose.follows slash = true)
      (found : tree.find folder name = .ok (some (.link target)))
      (onward : Leads tree purpose links (linkBase folder target)
        ((Path.ofText target).names ++ rest)
        (slash || (rest.isEmpty && (Path.ofText target).slash)) spot) :
      Leads tree purpose (links + 1) folder (name :: rest) slash spot

variable {tree tree' : FileTree} {purpose : Purpose} {links : Nat} {folder : Place}
  {name : Text} {names rest : List Text} {slash : Bool} {spot : Spot}

/-! ## The steps of the function -/

/-- How a walk goes on behind a link. -/
def onward (tree : FileTree) (purpose : Purpose) :
    Nat → Place → List Text → Bool → Except PathFault Spot
  | 0, _, _, _ => .error .tooManyLinks
  | links + 1, folder, names, slash => tree.walk purpose links folder names slash

theorem walk_eq_walkWith (tree : FileTree) (purpose : Purpose) (links : Nat) :
    tree.walk purpose links = tree.walkWith purpose (tree.onward purpose links) := by
  cases links <;> rfl

theorem walk_nil : tree.walk purpose links folder [] slash = .ok ⟨folder, none, slash⟩ := by
  rw [walk_eq_walkWith, walkWith]

theorem walk_here : tree.walk purpose links folder (Path.here :: rest) slash
    = tree.walk purpose links folder rest slash := by
  rw [walk_eq_walkWith, walkWith, if_pos rfl]

theorem walk_above : tree.walk purpose links folder (Path.above :: rest) slash
    = tree.walk purpose links folder.tail rest slash := by
  rw [walk_eq_walkWith, walkWith, if_neg (by decide), if_pos rfl]

theorem walk_unread (proper : Path.IsProper name) (follows : purpose.follows slash = false) :
    tree.walk purpose links folder [name] slash = .ok ⟨folder, some name, slash⟩ := by
  rw [walk_eq_walkWith, walkWith, if_neg proper.ne_here, if_neg proper.ne_above,
    if_pos ⟨rfl, follows⟩]

/-- **A name that is looked up** decides by what stands there. -/
theorem walk_cons (proper : Path.IsProper name) (read : rest ≠ [] ∨ purpose.follows slash = true) :
    tree.walk purpose links folder (name :: rest) slash
      = match tree.find folder name with
        | .error fault => .error fault
        | .ok (some (.link target)) =>
            tree.onward purpose links (linkBase folder target) ((Path.ofText target).names ++ rest)
              (slash || (rest.isEmpty && (Path.ofText target).slash))
        | .ok found =>
            if rest = [] then .ok ⟨folder, some name, slash⟩
            else
              match found with
              | some .directory => tree.walk purpose links (name :: folder) rest slash
              | some _ => .error .notDirectory
              | none => .error .missing := by
  have hread : ¬(rest = [] ∧ purpose.follows slash = false) := fun ⟨hr, hf⟩ =>
    read.elim (fun h => h hr) fun h => by simp [hf] at h
  rw [walk_eq_walkWith, walkWith, if_neg proper.ne_here, if_neg proper.ne_above, if_neg hread]
  rfl

theorem find_eq_ok_iff {found : Option Entry} : tree.find folder name = .ok found ↔
    Utf8.size name ≤ maxNameSize ∧ tree.get? (name :: folder) = found := by
  unfold find
  split
  next h => simp [Nat.not_le.2 h]
  next h => simp [Nat.not_lt.1 h]

/-! ## The relation is the function -/

theorem walk_of_leads (h : Leads tree purpose links folder names slash spot) :
    tree.walk purpose links folder names slash = .ok spot := by
  induction h with
  | done => exact walk_nil
  | stay _ ih => rw [walk_here, ih]
  | up _ ih => rw [walk_above, ih]
  | unread proper follows => exact walk_unread proper follows
  | @read _ _ _ _ entry proper follows found noLink =>
      rw [walk_cons proper (Or.inr follows), found]
      match entry, noLink with
      | none, _ => rfl
      | some .directory, _ => rfl
      | some (.file _), _ => rfl
      | some (.link target), noLink => exact absurd rfl (noLink target)
  | enter proper more found _ ih => simp [walk_cons proper (Or.inl more), found, more, ih]
  | follow proper read found _ ih =>
      rw [walk_cons proper read, found]
      exact ih

/-- **A walk that arrives by the function takes steps of the relation**, if the links behind it do.
The induction is on the names; at a link the names that come are others, so it stops there. -/
theorem leads_of_walk_of_onward
    (ih : ∀ {folder names slash}, tree.onward purpose links folder names slash = .ok spot →
      ∃ fewer, links = fewer + 1 ∧ Leads tree purpose fewer folder names slash spot) :
    ∀ (names : List Text) {folder : Place},
      tree.walk purpose links folder names slash = .ok spot →
        Leads tree purpose links folder names slash spot
  | [], folder, h => by
      rw [walk_nil] at h
      cases h
      exact .done
  | name :: rest, folder, h => by
      by_cases here : name = Path.here
      · subst here
        rw [walk_here] at h
        exact .stay (leads_of_walk_of_onward ih rest h)
      by_cases above : name = Path.above
      · subst above
        rw [walk_above] at h
        exact .up (leads_of_walk_of_onward ih rest h)
      have proper : Path.IsProper name := ⟨here, above⟩
      by_cases unread : rest = [] ∧ purpose.follows slash = false
      · obtain ⟨rfl, follows⟩ := unread
        rw [walk_unread proper follows] at h
        cases h
        exact .unread proper follows
      have read : rest ≠ [] ∨ purpose.follows slash = true := by
        rcases Decidable.not_and_iff_or_not.1 unread with h | h
        · exact Or.inl h
        · exact Or.inr (by simpa using h)
      rw [walk_cons proper read] at h
      split at h
      next => cases h
      next target found =>
        obtain ⟨fewer, rfl, onward⟩ := ih h
        exact .follow proper read found onward
      next found noLink hfound =>
        split at h
        next last =>
          subst last
          cases h
          exact .read proper (read.resolve_left fun h => h rfl) hfound fun target htarget =>
            noLink target htarget
        next more =>
          split at h
          next => exact .enter proper more hfound (leads_of_walk_of_onward ih rest h)
          next => cases h
          next => cases h

/-- **The walks of the relation are those of the function.** -/
theorem walk_eq_ok_iff : tree.walk purpose links folder names slash = .ok spot ↔
    Leads tree purpose links folder names slash spot := by
  refine ⟨fun h => ?_, walk_of_leads⟩
  induction links generalizing folder names slash with
  | zero => exact leads_of_walk_of_onward (fun h => by cases h) names h
  | succ links ih => exact leads_of_walk_of_onward (fun h => ⟨links, rfl, ih h⟩) names h

/-- There is one way at most. -/
theorem Leads.unique {spot' : Spot} (h : Leads tree purpose links folder names slash spot)
    (h' : Leads tree purpose links folder names slash spot') : spot = spot' := by
  have := (walk_of_leads h).symm.trans (walk_of_leads h')
  simpa using this

/-! ## Another purpose

No purpose but `Purpose.entry` looks at the last name, and all of them treat the names before it
alike. -/

/-- **What the entry of a path is, if it is no link, is what the path leads to.** -/
theorem Leads.of_entry (h : Leads tree .entry links folder names slash spot)
    (noLink : ∀ name, spot.name = some name →
      ∃ entry, tree.find spot.folder name = .ok entry ∧ ∀ target, entry ≠ some (.link target)) :
    Leads tree purpose links folder names slash spot := by
  induction h with
  | done => exact .done
  | stay _ ih => exact .stay (ih noLink)
  | up _ ih => exact .up (ih noLink)
  | @unread _ _ name slash proper =>
      obtain ⟨entry, found, noLink⟩ := noLink name rfl
      cases follows : purpose.follows slash with
      | false => exact .unread proper follows
      | true => exact .read proper follows found noLink
  | read _ follows => exact absurd follows (by simp [Purpose.follows])
  | enter proper more found _ ih => exact .enter proper more found (ih noLink)
  | follow proper read found _ ih =>
      exact .follow proper (Or.inl (read.resolve_right (by simp [Purpose.follows]))) found
        (ih noLink)

/-- **A path leads to its own entry, or the walk goes on from there**: then a link stands at the
entry, and the walk follows it. -/
theorem Leads.entry_or_link (h : Leads tree purpose links folder names slash spot) :
    Leads tree .entry links folder names slash spot ∨
      ∃ base name slash' target fewer,
        Leads tree .entry links folder names slash ⟨base, some name, slash'⟩ ∧
        tree.find base name = .ok (some (.link target)) ∧
        Leads tree purpose fewer (linkBase base target) (Path.ofText target).names
          (slash' || (Path.ofText target).slash) spot := by
  induction h with
  | done => exact Or.inl .done
  | stay _ ih =>
      rcases ih with h | ⟨base, name, slash', target, fewer, h, found, onward⟩
      · exact Or.inl (.stay h)
      · exact Or.inr ⟨base, name, slash', target, fewer, .stay h, found, onward⟩
  | up _ ih =>
      rcases ih with h | ⟨base, name, slash', target, fewer, h, found, onward⟩
      · exact Or.inl (.up h)
      · exact Or.inr ⟨base, name, slash', target, fewer, .up h, found, onward⟩
  | unread proper => exact Or.inl (.unread proper rfl)
  | read proper => exact Or.inl (.unread proper rfl)
  | enter proper more found _ ih =>
      rcases ih with h | ⟨base, name, slash', target, fewer, h, found', onward⟩
      · exact Or.inl (.enter proper more found h)
      · exact Or.inr ⟨base, name, slash', target, fewer, .enter proper more found h, found', onward⟩
  | @follow links folder name rest slash target spot proper _ found onward ih =>
      by_cases last : rest = []
      · subst last
        refine Or.inr ⟨folder, name, slash, target, links, .unread proper rfl, found, ?_⟩
        simpa using onward
      · rcases ih with h | ⟨base, name', slash', target', fewer, h, found', onward⟩
        · exact Or.inl (.follow proper (Or.inl last) found h)
        · exact Or.inr ⟨base, name', slash', target', fewer,
            .follow proper (Or.inl last) found h, found', onward⟩

/-- A walk keeps the slash that it begins with. -/
theorem Leads.noSlash (h : Leads tree purpose links folder names slash spot)
    (hspot : spot.slash = false) : slash = false := by
  induction h with
  | done => exact hspot
  | stay _ ih => exact ih hspot
  | up _ ih => exact ih hspot
  | unread => exact hspot
  | read => exact hspot
  | enter _ _ _ _ ih => exact ih hspot
  | follow _ _ _ _ ih => exact (Bool.or_eq_false_iff.1 (ih hspot)).1

/-- **Purposes that follow links lead to the same place**, as long as no directory is asked for. -/
theorem Leads.of_noSlash {purpose' : Purpose} (h : Leads tree purpose links folder names slash spot)
    (hspot : spot.slash = false) (follows : purpose.follows false = true)
    (follows' : purpose'.follows false = true) :
    Leads tree purpose' links folder names slash spot := by
  induction h with
  | done => exact .done
  | stay _ ih => exact .stay (ih hspot)
  | up _ ih => exact .up (ih hspot)
  | unread _ unread =>
      cases hspot
      exact nomatch unread.symm.trans follows
  | read proper _ found noLink =>
      cases hspot
      exact .read proper follows' found noLink
  | enter proper more found _ ih => exact .enter proper more found (ih hspot)
  | follow proper read found onward ih =>
      obtain ⟨rfl, -⟩ := Bool.or_eq_false_iff.1 (onward.noSlash hspot)
      exact .follow proper (Or.inr follows') found (ih hspot)

/-! ## Another tree -/

/-- **One tree has the ways of another**: its directories and links, at their places. -/
def HasWays (tree' tree : FileTree) : Prop :=
  ∀ place entry, tree.get? place = some entry → (∀ content, entry ≠ .file content) →
    tree'.get? place = some entry

/-- A name that stands for a directory or a link does so in a tree that has the ways. -/
theorem HasWays.find {entry : Entry} (ways : tree'.HasWays tree)
    (found : tree.find folder name = .ok (some entry)) (noFile : ∀ content, entry ≠ .file content) :
    tree'.find folder name = .ok (some entry) := by
  rw [find_eq_ok_iff] at found ⊢
  exact ⟨found.1, ways _ _ found.2 noFile⟩

/-- Having the ways is handed on. -/
theorem HasWays.trans {tree'' : FileTree} (ways' : tree''.HasWays tree')
    (ways : tree'.HasWays tree) : tree''.HasWays tree := fun place entry hentry noFile =>
  ways' place entry (ways place entry hentry noFile) noFile

/-- **A path leads to the same entry in every tree that has the ways.**  If the last name is looked
up, there must also be no link there that was not there before. -/
theorem Leads.mono (ways : tree'.HasWays tree) (back : purpose = .entry ∨ tree.HasWays tree')
    (h : Leads tree purpose links folder names slash spot) :
    Leads tree' purpose links folder names slash spot := by
  induction h with
  | done => exact .done
  | stay _ ih => exact .stay ih
  | up _ ih => exact .up ih
  | unread proper follows => exact .unread proper follows
  | @read _ folder name _ entry proper follows found noLink =>
      obtain ⟨hsize, rfl⟩ := find_eq_ok_iff.1 found
      refine .read proper follows (find_eq_ok_iff.2 ⟨hsize, rfl⟩) fun target htarget => ?_
      rcases back with rfl | back
      · exact absurd follows (by simp [Purpose.follows])
      · exact noLink target (back _ _ htarget nofun)
  | enter proper more found _ ih => exact .enter proper more (ways.find found nofun) ih
  | follow proper read found _ ih => exact .follow proper read (ways.find found nofun) ih

/-! ## The last name -/

/-- **The last name has no part in the walk to its folder.**  A path that leads to an entry leads to
the one beside it when its last name is exchanged. -/
theorem Leads.sibling {dir : List Text} {last name : Text} {base : Place} {slash' : Bool}
    (h : Leads tree .entry links folder (dir ++ [last]) slash ⟨base, some name, slash'⟩) :
    name = last ∧ slash' = slash ∧ Path.IsProper last ∧ ∀ other, Path.IsProper other →
      Leads tree .entry links folder (dir ++ [other]) slash ⟨base, some other, slash⟩ := by
  generalize hnames : dir ++ [last] = names at h
  generalize hspot : Spot.mk base (some name) slash' = spot at h
  induction h generalizing dir with
  | done => simp at hnames
  | @stay _ _ rest slash _ onward ih =>
      match dir, hnames with
      | [], hnames =>
          obtain ⟨-, rfl⟩ : last = Path.here ∧ [] = rest := by simpa using hnames
          cases onward
          cases hspot
      | d :: dir, hnames =>
          obtain ⟨rfl, hrest⟩ : d = Path.here ∧ dir ++ [last] = rest := by simpa using hnames
          obtain ⟨hname, hslash, proper, h⟩ := ih hrest hspot
          exact ⟨hname, hslash, proper, fun other hother => .stay (h other hother)⟩
  | @up _ _ rest slash _ onward ih =>
      match dir, hnames with
      | [], hnames =>
          obtain ⟨-, rfl⟩ : last = Path.above ∧ [] = rest := by simpa using hnames
          cases onward
          cases hspot
      | d :: dir, hnames =>
          obtain ⟨rfl, hrest⟩ : d = Path.above ∧ dir ++ [last] = rest := by simpa using hnames
          obtain ⟨hname, hslash, proper, h⟩ := ih hrest hspot
          exact ⟨hname, hslash, proper, fun other hother => .up (h other hother)⟩
  | @unread _ _ last' slash proper =>
      match dir, hnames with
      | [], hnames =>
          obtain rfl : last = last' := by simpa using hnames
          cases hspot
          exact ⟨rfl, rfl, proper, fun other hother => .unread hother rfl⟩
      | d :: dir, hnames => simp at hnames
  | read _ follows => exact absurd follows (by simp [Purpose.follows])
  | @enter _ _ name' rest slash _ proper more found _ ih =>
      match dir, hnames with
      | [], hnames => exact absurd (by simpa using hnames.symm : name' = last ∧ rest = []).2 more
      | d :: dir, hnames =>
          obtain ⟨rfl, hrest⟩ : d = name' ∧ dir ++ [last] = rest := by simpa using hnames
          obtain ⟨hname, hslash, proper', h⟩ := ih hrest hspot
          exact ⟨hname, hslash, proper', fun other hother =>
            .enter proper (by simp) found (h other hother)⟩
  | @follow _ _ name' rest slash target _ proper read found _ ih =>
      have more : rest ≠ [] := read.resolve_right (by simp [Purpose.follows])
      match dir, hnames with
      | [], hnames => exact absurd (by simpa using hnames.symm : name' = last ∧ rest = []).2 more
      | d :: dir, hnames =>
          obtain ⟨rfl, rfl⟩ : d = name' ∧ dir ++ [last] = rest := by simpa using hnames
          obtain ⟨hname, hslash, proper', h⟩ := ih (List.append_assoc ..) hspot
          -- names are left behind the link, so a slash at the end of its target does not count
          have hkept : ∀ other : Text, (slash || ((dir ++ [other]).isEmpty &&
              (Path.ofText target).slash)) = slash := by simp
          refine ⟨hname, hslash.trans (hkept last), proper', fun other hother => ?_⟩
          refine .follow proper (Or.inl (by simp)) found ?_
          simpa [hkept] using h other hother

/-- **A path whose last name is looked up leads to that name in a folder.** -/
theorem Leads.ends_in_last {dir : List Text} {last : Text}
    (h : Leads tree .entry links folder (dir ++ [last]) slash spot) (proper : Path.IsProper last) :
    ∃ base, spot = ⟨base, some last, slash⟩ := by
  generalize hnames : dir ++ [last] = names at h
  induction h generalizing dir with
  | done => simp at hnames
  | stay _ ih =>
      match dir, hnames with
      | [], hnames => exact absurd (List.cons.inj hnames).1 proper.ne_here
      | _ :: dir, hnames => exact ih (List.cons.inj hnames).2
  | up _ ih =>
      match dir, hnames with
      | [], hnames => exact absurd (List.cons.inj hnames).1 proper.ne_above
      | _ :: dir, hnames => exact ih (List.cons.inj hnames).2
  | unread =>
      match dir, hnames with
      | [], hnames => exact ⟨_, by rw [(List.cons.inj hnames).1]⟩
      | _ :: dir, hnames => simp at hnames
  | read _ follows => exact absurd follows (by simp [Purpose.follows])
  | enter _ more _ _ ih =>
      match dir, hnames with
      | [], hnames => exact absurd (List.cons.inj hnames).2.symm more
      | _ :: dir, hnames => exact ih (List.cons.inj hnames).2
  | @follow _ _ _ rest slash target _ _ read _ _ ih =>
      have more : rest ≠ [] := read.resolve_right (by simp [Purpose.follows])
      match dir, hnames with
      | [], hnames => exact absurd (List.cons.inj hnames).2.symm more
      | _ :: dir, hnames =>
          obtain rfl : dir ++ [last] = rest := (List.cons.inj hnames).2
          have hkept : (slash || ((dir ++ [last]).isEmpty && (Path.ofText target).slash)) = slash := by
            simp
          obtain ⟨base, hspot⟩ := ih (List.append_assoc ..)
          exact ⟨base, hkept ▸ hspot⟩

end FileTree

end ModuleRoster
