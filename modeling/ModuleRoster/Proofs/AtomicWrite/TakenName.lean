import Mathlib.Control.Monad.Basic
import ModuleRoster.Proofs.AtomicWrite.AllOrNothing

/-!
# Proofs/AtomicWrite/TakenName — when something stands at the temporary name

A call does not look at what stands at its temporary name.  A directory there stops it; a file there
is the temporary file, and a link there leads to it.  `run_of_taken` tells for each kind of entry
what is left of it, and `EndsTaken.get?_eq` that all other entries are as before.
-/

namespace ModuleRoster.AtomicWrite

open FileTree

variable {w : AtomicWrite} {pid : Int} {now : Binary64} {temporary : Text}
  {tree after : FileTree} {folder place : Place} {name : Text} {entry : Entry} {failure : Failure}
  {result : Except Failure Unit}

/-! ## How such calls end -/

/-- **How a call can end that finds an entry at its temporary name**, by the kind of the entry, with
the place of the entry, its result and the tree after it. -/
inductive EndsTaken (w : AtomicWrite) (temporary : Text) (tree : FileTree) (folder : Place)
    (name : Text) : Entry → Except Failure Unit → FileTree → Prop
  /-- At a directory the call fails, and the directory stays. -/
  | directory : EndsTaken w temporary tree folder name .directory
      (.error (.badPath .isDirectory temporary)) tree
  /-- A file is gone if the call fails. -/
  | fileRemoved {content failure} : EndsTaken w temporary tree folder name (.file content)
      (.error failure) (tree.erase (name :: folder))
  /-- A file is written anew and moved if the call succeeds. -/
  | fileMoved {content bytes short} (encoded : w.content = .ok bytes)
      (located : tree.locate .entry w.path = .ok ⟨folder, some short, false⟩) :
      EndsTaken w temporary tree folder name (.file content) (.ok ())
        ((tree.erase (name :: folder)).insert (short :: folder) (.file bytes))
  /-- A link that leads nowhere, not even to a place for a file, stays. -/
  | linkKept {target fault} (closed : tree.create temporary = .error fault)
      (nowhere : tree.leadsTo temporary = false) :
      EndsTaken w temporary tree folder name (.link target)
        (.error (.badPath fault temporary)) tree
  /-- A link that leads to something, but not to a file, is gone. -/
  | linkRemoved {target fault} (closed : tree.create temporary = .error fault)
      (somewhere : tree.leadsTo temporary = true) :
      EndsTaken w temporary tree folder name (.link target)
        (.error (.badPath fault temporary)) (tree.erase (name :: folder))
  /-- A link that leads to a file, or to a place for one, is gone if the call fails; the file has
  the content, or nothing if there is none. -/
  | goalWritten {target goal opened failure} (opens : tree.create temporary = .ok (goal, opened))
      (apart : goal ≠ name :: folder) :
      EndsTaken w temporary tree folder name (.link target) (.error failure)
        ((tree.insert goal (.file (w.content.toOption.getD []))).erase (name :: folder))
  /-- Such a link is moved if the call succeeds, so the path is a link; the file has the content.  If
  the link leads to the entry of the path itself, it takes the place of the file that was just
  written, and no file with the content is left. -/
  | linkMoved {target goal opened bytes short} (opens : tree.create temporary = .ok (goal, opened))
      (apart : goal ≠ name :: folder) (encoded : w.content = .ok bytes)
      (located : tree.locate .entry w.path = .ok ⟨folder, some short, false⟩) :
      EndsTaken w temporary tree folder name (.link target) (.ok ())
        (((tree.insert goal (.file bytes)).erase (name :: folder)).insert (short :: folder)
          (.link target))

/-! ## The entry at the temporary name -/

/-- **Tidying up removes what leads to something**, be it a link to it. -/
theorem cleanUp_taken (h : tree.Finds .entry temporary folder name (some entry))
    (noDirectory : entry ≠ .directory) (leads : tree.leadsTo temporary = true) :
    cleanUp temporary failure tree = (.error failure, tree.erase (name :: folder)) := by
  simp [cleanUp, leads, remove_eq_ok_iff.2 ⟨folder, name, entry, h, noDirectory, rfl⟩]

/-- **An entry at a temporary name is found there**: the name is no way to a directory. -/
theorem finds_of_taken (named : temporaryName w.path pid now = .ok temporary)
    (taken : tree.entryAt? temporary = some entry) :
    ∃ folder name, tree.Finds .entry temporary folder name (some entry) := by
  obtain ⟨suffix, rfl, noSlash, hyphen⟩ := temporaryName_eq_append named
  obtain ⟨last, hlast⟩ := exists_last_of_append w.path
  unfold entryAt? at taken
  rcases hlocated : tree.locate .entry (w.path ++ suffix) with fault | spot
  · simp [hlocated] at taken
  obtain ⟨folder, rfl⟩ := hlast noSlash hyphen hlocated
  rcases hfound : tree.find folder (last ++ suffix) with fault | found
  · simp [hlocated, hfound] at taken
  · obtain rfl : found = some entry := by simpa [hlocated, hfound] using taken
    exact ⟨folder, last ++ suffix, hlocated, hfound⟩

/-! ## Kind by kind -/

section

variable (named : temporaryName w.path pid now = .ok temporary)
  (hrun : w.run pid now tree = (result, after))
include named hrun

theorem endsTaken_of_directory (h : tree.Finds .entry temporary folder name (some .directory)) :
    EndsTaken w temporary tree folder name .directory result after := by
  have hopen : ∀ purpose, tree.Finds purpose temporary folder name (some .directory) :=
    fun _ => h.of_entry nofun
  have closed : tree.create temporary = .error .isDirectory := by
    simp [create, bind, Except.bind, (hopen .creating).located, h.found]
  have leads : tree.leadsTo temporary = true := by
    simp [leadsTo, (hopen .reading).located, h.found]
  have stays : tree.remove temporary = .error .isDirectory := by
    simp [remove, bind, Except.bind, h.located, h.found]
  rw [run_of_closed named closed, cleanUp, if_pos leads, stays] at hrun
  cases hrun
  exact .directory

theorem endsTaken_of_file {content : Bytes}
    (h : tree.Finds .entry temporary folder name (some (.file content))) :
    EndsTaken w temporary tree folder name (.file content) result after := by
  have opens : tree.Finds .creating temporary folder name (some (.file content)) :=
    h.of_entry nofun
  have free : ∀ other, some (Entry.file content) = some other → ∃ content, other = .file content :=
    fun other hother => ⟨content, (Option.some.inj hother).symm⟩
  have written : ∀ bytes, (tree.insert (name :: folder) (.file bytes)).Finds .entry temporary folder
      name (some (.file bytes)) := fun _ => h.insert_file free
  rcases run_of_opened named opens free with ⟨failure, hfails⟩ | ⟨bytes, moved, hcontent, hrename,
    hsucceeds⟩
  · have leads := leadsTo_of_file ((written (w.content.toOption.getD [])).of_entry nofun)
    rw [cleanUp_taken (written _) nofun leads, erase_insert_self] at hfails
    cases hrun.symm.trans hfails
    exact .fileRemoved
  · cases hrun.symm.trans hsucceeds
    obtain ⟨suffix, rfl, noSlash, hyphen⟩ := temporaryName_eq_append named
    obtain ⟨short, _, rfl, htarget, -, rfl⟩ :=
      rename_beside noSlash hyphen (written bytes) hrename
    rw [erase_insert_self]
    exact .fileMoved hcontent
      (locate_mono (hasWays_of_insert_file (List.cons_ne_nil _ _)) htarget.located)

theorem endsTaken_of_link {target : Text}
    (h : tree.Finds .entry temporary folder name (some (.link target))) :
    EndsTaken w temporary tree folder name (.link target) result after := by
  rcases hcreate : tree.create temporary with fault | ⟨goal, opened⟩
  · rw [run_of_closed named hcreate] at hrun
    cases leads : tree.leadsTo temporary with
    | true =>
        rw [cleanUp_taken h nofun leads] at hrun
        cases hrun
        exact .linkRemoved hcreate leads
    | false =>
        rw [cleanUp, if_neg (by simp [leads])] at hrun
        cases hrun
        exact .linkKept hcreate leads
  obtain ⟨base, last, old, opens, free, rfl, -⟩ := create_eq_ok_iff.1 hcreate
  -- a link stands at the temporary name, and none where it leads
  have apart : last :: base ≠ name :: folder := fun hsame => by
    cases hsame
    cases (find_eq_ok_iff.1 opens.found).2.symm.trans (find_eq_ok_iff.1 h.found).2
    obtain ⟨_, hother⟩ := free _ rfl
    cases hother
  have hfree : ∀ other, tree.get? (last :: base) = some other →
      ∃ content, other = .file content := (find_eq_ok_iff.1 opens.found).2 ▸ free
  have written : ∀ bytes, (tree.insert (last :: base) (.file bytes)).Finds .entry temporary folder
      name (some (.link target)) := fun bytes => by
    simpa [apart.symm] using h.insert_elsewhere hfree (List.cons_ne_nil last base)
  rcases run_of_opened named opens free with ⟨failure, hfails⟩ | ⟨bytes, moved, hcontent, hrename,
    hsucceeds⟩
  · rw [cleanUp_taken (written _) nofun (leadsTo_of_file (opens.insert_file free).reading)] at hfails
    cases hrun.symm.trans hfails
    exact .goalWritten hcreate apart
  · cases hrun.symm.trans hsucceeds
    obtain ⟨suffix, rfl, noSlash, hyphen⟩ := temporaryName_eq_append named
    obtain ⟨short, _, rfl, htarget, -, rfl⟩ :=
      rename_beside noSlash hyphen (written bytes) hrename
    exact .linkMoved hcreate apart hcontent
      (locate_mono (hasWays_of_insert_file (List.cons_ne_nil _ _)) htarget.located)

end

/-! ## What is harmed, and what is not -/

/-- **All other entries are as before**: those at no place of the path, of its temporary name and of
the file that a link there leads to. -/
theorem EndsTaken.get?_eq (h : EndsTaken w temporary tree folder name entry result after)
    (hname : place ≠ name :: folder)
    (hpath : ∀ short, tree.locate .entry w.path = .ok ⟨folder, some short, false⟩ →
      place ≠ short :: folder)
    (hgoal : ∀ goal opened, (∃ target, entry = .link target) →
      tree.create temporary = .ok (goal, opened) → place ≠ goal) :
    after.get? place = tree.get? place := by
  have hne : ∀ {n : Text} {p : Place}, n :: p ≠ [] := fun {n p} => List.cons_ne_nil n p
  have hgoal_ne : ∀ {goal opened}, tree.create temporary = .ok (goal, opened) → goal ≠ [] := by
    intro goal opened opens
    obtain ⟨_, _, _, _, _, rfl, _⟩ := create_eq_ok_iff.1 opens
    exact hne
  cases h with
  | directory => rfl
  | linkKept => rfl
  | fileRemoved => rw [get?_erase _ hne, if_neg hname]
  | linkRemoved => rw [get?_erase _ hne, if_neg hname]
  | fileMoved _ located =>
      rw [get?_insert _ hne, if_neg (hpath _ located), get?_erase _ hne, if_neg hname]
  | goalWritten opens =>
      rw [get?_erase _ hne, if_neg hname, get?_insert _ (hgoal_ne opens),
        if_neg (hgoal _ _ ⟨_, rfl⟩ opens)]
  | linkMoved opens _ _ located =>
      rw [get?_insert _ hne, if_neg (hpath _ located), get?_erase _ hne, if_neg hname,
        get?_insert _ (hgoal_ne opens), if_neg (hgoal _ _ ⟨_, rfl⟩ opens)]

/-- **A call that finds an entry at its temporary name** ends by the kind of the entry, and it
changes no entry but the one of its path, the one at the temporary name and, if that is a link, the
one that a file opened there has. -/
theorem run_of_taken (w : AtomicWrite) (pid : Int) (now : Binary64) (tree : FileTree)
    {temporary : Text} {entry : Entry} (named : temporaryName w.path pid now = .ok temporary)
    (taken : tree.entryAt? temporary = some entry) :
    ∃ folder name result after, tree.Finds .entry temporary folder name (some entry) ∧
      w.run pid now tree = (result, after) ∧
      EndsTaken w temporary tree folder name entry result after ∧
      ∀ place, place ≠ name :: folder →
        (∀ short, tree.locate .entry w.path = .ok ⟨folder, some short, false⟩ →
          place ≠ short :: folder) →
        (∀ goal opened, (∃ target, entry = .link target) →
          tree.create temporary = .ok (goal, opened) → place ≠ goal) →
        after.get? place = tree.get? place := by
  obtain ⟨folder, name, h⟩ := finds_of_taken named taken
  rcases hrun : w.run pid now tree with ⟨result, after⟩
  have ends : EndsTaken w temporary tree folder name entry result after := by
    cases entry with
    | directory => exact endsTaken_of_directory named hrun h
    | file content => exact endsTaken_of_file named hrun h
    | link target => exact endsTaken_of_link named hrun h
  exact ⟨folder, name, result, after, h, rfl, ends, fun _ hname hpath hgoal =>
    ends.get?_eq hname hpath hgoal⟩

/-- A file, and a link to it at a temporary name. -/
def takenTree : FileTree :=
  ⟨[(["s".toList], .file [0x78]), (["a-7-0".toList], .link "s".toList)]⟩

/-- A link at the temporary name is moved to the path, and the file that it leads to is written. -/
theorem run_of_taken_link :
    temporaryName "a".toList 7 .zero = .ok "a-7-0".toList ∧
      takenTree.entryAt? "a-7-0".toList = some (.link "s".toList) ∧
      ∃ after, run ⟨"a".toList, "os".toList, "utf-8".toList⟩ 7 .zero takenTree = (.ok (), after) ∧
        EndsTaken ⟨"a".toList, "os".toList, "utf-8".toList⟩ "a-7-0".toList takenTree []
          "a-7-0".toList (.link "s".toList) (.ok ()) after := by
  have named : temporaryName "a".toList 7 .zero = .ok "a-7-0".toList := by decide +kernel
  have taken : takenTree.entryAt? "a-7-0".toList = some (.link "s".toList) := by decide +kernel
  have succeeds : (run ⟨"a".toList, "os".toList, "utf-8".toList⟩ 7 .zero takenTree).1.isOk
      = true := by decide +kernel
  have located : takenTree.locate .entry "a-7-0".toList = .ok ⟨[], some "a-7-0".toList, false⟩ := by
    decide +kernel
  obtain ⟨after, hrun⟩ := exists_run_eq_ok succeeds
  obtain ⟨folder, name, result, _, h, hrun', ends, -⟩ := run_of_taken
    ⟨"a".toList, "os".toList, "utf-8".toList⟩ 7 .zero takenTree named taken
  cases hrun.symm.trans hrun'
  cases located.symm.trans h.located
  exact ⟨named, taken, after, hrun, ends⟩

/-- **What stands at the temporary name is harmed**: a call that fails has removed a link there, and
emptied the file that it led to. -/
theorem not_run_keeps_taken :
    takenTree.get? ["a-7-0".toList] = some (.link "s".toList) ∧
      takenTree.get? ["s".toList] = some (.file [0x78]) ∧
      (run ⟨"a".toList, "é".toList, "ascii".toList⟩ 7 .zero takenTree).1.isOk = false ∧
      (run ⟨"a".toList, "é".toList, "ascii".toList⟩ 7 .zero takenTree).2.get? ["a-7-0".toList]
        = none ∧
      (run ⟨"a".toList, "é".toList, "ascii".toList⟩ 7 .zero takenTree).2.get? ["s".toList]
        = some (.file []) := by
  decide +kernel

end ModuleRoster.AtomicWrite
