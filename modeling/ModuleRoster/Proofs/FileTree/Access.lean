import ModuleRoster.Proofs.FileTree.Leads

/-!
# Proofs/FileTree/Access — when reading and changing succeed, and what they do

One statement for each operation on a path: it succeeds exactly if its paths lead to the right kind
of entry (`create_eq_ok_iff`, `rename_eq_ok_iff`, `remove_eq_ok_iff`, `read_eq_ok_iff`), and a
change is then an insertion, a clearing or both.  Behind it stand `HasWays` for these changes: a
file put where no directory and no link stood, and one taken away, leave all paths their entries.
-/

namespace ModuleRoster

/-- A path that can be walked at all. -/
structure Path.IsUsable (path : Text) : Prop where
  noNull : '\x00' ∉ path
  ne_nil : path ≠ []
  size_le : Utf8.size path ≤ maxPathSize

namespace FileTree

variable {tree tree' : FileTree} {purpose : Purpose} {path : Text} {folder : Place}
  {name : Text} {spot : Spot}

/-! ## Where a path leads -/

theorem locate_eq_ok_iff : tree.locate purpose path = .ok spot ↔
    Path.IsUsable path ∧
      Leads tree purpose maxLinks [] (Path.ofText path).names (Path.ofText path).slash spot := by
  unfold locate
  split
  next h => exact iff_of_false nofun fun ⟨usable, _⟩ => usable.noNull (by simpa using h)
  next hnull =>
    split
    next h => exact iff_of_false nofun fun ⟨usable, _⟩ => usable.ne_nil h
    next hnil =>
      split
      next h => exact iff_of_false nofun fun ⟨usable, _⟩ => absurd usable.size_le (Nat.not_le.2 h)
      next hsize =>
        rw [walk_eq_ok_iff]
        exact (and_iff_right ⟨by simpa using hnull, hnil, Nat.not_lt.1 hsize⟩).symm

theorem locate_mono (ways : tree'.HasWays tree) (h : tree.locate .entry path = .ok spot) :
    tree'.locate .entry path = .ok spot := by
  rw [locate_eq_ok_iff] at h ⊢
  exact ⟨h.1, h.2.mono ways (Or.inl rfl)⟩

/-- Trees with the same ways lead to the same places. -/
theorem locate_congr (ways : tree'.HasWays tree) (back : tree.HasWays tree')
    (h : tree.locate purpose path = .ok spot) : tree'.locate purpose path = .ok spot := by
  rw [locate_eq_ok_iff] at h ⊢
  exact ⟨h.1, h.2.mono ways (Or.inr back)⟩

/-- **A path leads to a name in a folder, and this is what stands there.**  No slash is behind it,
so the path does not ask for a directory. -/
structure Finds (tree : FileTree) (purpose : Purpose) (path : Text) (folder : Place) (name : Text)
    (entry : Option Entry) : Prop where
  located : tree.locate purpose path = .ok ⟨folder, some name, false⟩
  found : tree.find folder name = .ok entry

/-- What is found at the path itself, if it is no link, is found for every purpose. -/
theorem Finds.of_entry {entry : Option Entry} (h : tree.Finds .entry path folder name entry)
    (noLink : ∀ target, entry ≠ some (.link target)) :
    tree.Finds purpose path folder name entry := by
  obtain ⟨usable, leads⟩ := locate_eq_ok_iff.1 h.located
  refine ⟨locate_eq_ok_iff.2 ⟨usable, leads.of_entry fun _ hname => ?_⟩, h.found⟩
  exact Option.some.inj hname ▸ ⟨entry, h.found, noLink⟩

/-! ## What the operations do -/

/-- **A file is read** if the path leads to one. -/
theorem read_eq_ok_iff {content : Bytes} : tree.read path = .ok content ↔
    ∃ folder name, tree.Finds .reading path folder name (some (.file content)) := by
  constructor
  · intro h
    unfold read at h
    rcases hspot : tree.locate .reading path with fault | ⟨folder, _ | name, slash⟩ <;>
      simp only [hspot, bind, Except.bind, reduceCtorEq] at h
    rcases hfound : tree.find folder name with fault | _ | _ | _ | _ <;> cases slash <;>
      simp [hfound] at h
    exact ⟨folder, name, hspot, h ▸ hfound⟩
  · rintro ⟨folder, name, hspot, hfound⟩
    simp [read, bind, Except.bind, hspot, hfound]

/-- **A file is made or emptied** if nothing or a file stands where the path leads. -/
theorem create_eq_ok_iff {place : Place} : tree.create path = .ok (place, tree') ↔
    ∃ folder name entry, tree.Finds .creating path folder name entry ∧
      (∀ other, entry = some other → ∃ content, other = .file content) ∧
      place = name :: folder ∧ tree' = tree.insert (name :: folder) (.file []) := by
  constructor
  · intro h
    unfold create at h
    rcases hspot : tree.locate .creating path with fault | ⟨folder, _ | name, slash⟩ <;>
      simp only [hspot, bind, Except.bind, reduceCtorEq] at h
    rcases hfound : tree.find folder name with fault | _ | _ | _ | _ <;> cases slash <;>
      simp [hfound] at h
    all_goals exact ⟨folder, name, _, ⟨hspot, hfound⟩, by simp, h.1.symm, h.2.symm⟩
  · rintro ⟨folder, name, entry, ⟨hspot, hfound⟩, free, rfl, rfl⟩
    rcases entry with _ | _ | _ | _
    · simp [create, bind, Except.bind, hspot, hfound]
    · simp [create, bind, Except.bind, hspot, hfound]
    · obtain ⟨_, hcontent⟩ := free _ rfl
      cases hcontent
    · obtain ⟨_, hcontent⟩ := free _ rfl
      cases hcontent

/-- **An entry is removed** if the path itself is that of a file or a link. -/
theorem remove_eq_ok_iff : tree.remove path = .ok tree' ↔
    ∃ folder name entry, tree.Finds .entry path folder name (some entry) ∧ entry ≠ .directory ∧
      tree' = tree.erase (name :: folder) := by
  constructor
  · intro h
    unfold remove at h
    rcases hspot : tree.locate .entry path with fault | ⟨folder, _ | name, slash⟩ <;>
      simp only [hspot, bind, Except.bind, reduceCtorEq] at h
    rcases hfound : tree.find folder name with fault | _ | _ | _ | _ <;> cases slash <;>
      simp [hfound] at h
    all_goals exact ⟨folder, name, _, ⟨hspot, hfound⟩, nofun, h.symm⟩
  · rintro ⟨folder, name, entry, ⟨hspot, hfound⟩, noDirectory, rfl⟩
    rcases entry with _ | _ | _
    · simp [remove, bind, Except.bind, hspot, hfound]
    · exact absurd rfl noDirectory
    · simp [remove, bind, Except.bind, hspot, hfound]

/-- **An entry is given another path** if it is a file or a link, and no directory stands there. -/
theorem rename_eq_ok_iff {target : Text} : tree.rename path target = .ok tree' ↔
    ∃ folder name entry folder' name' replaced,
      tree.Finds .entry path folder name (some entry) ∧ entry ≠ .directory ∧
      tree.Finds .entry target folder' name' replaced ∧ replaced ≠ some .directory ∧
      tree' = (tree.erase (name :: folder)).insert (name' :: folder') entry := by
  constructor
  · intro h
    unfold rename at h
    rcases hspot : tree.locate .entry path with fault | ⟨folder, _ | name, slash⟩ <;>
      rcases hspot' : tree.locate .entry target with fault' | ⟨folder', _ | name', slash'⟩ <;>
      simp only [hspot, hspot', bind, Except.bind, reduceCtorEq] at h
    rcases hfound : tree.find folder name with fault | _ | entry <;>
      simp only [hfound, reduceCtorEq] at h
    by_cases directory : entry = .directory
    · simp [directory] at h
    rcases hfound' : tree.find folder' name' with fault | replaced <;>
      simp only [hfound', reduceCtorEq] at h
    by_cases directory' : replaced = some .directory <;> cases slash <;> cases slash' <;>
      simp [directory'] at h
    exact ⟨folder, name, entry, folder', name', replaced, ⟨hspot, hfound⟩, directory,
      ⟨hspot', hfound'⟩, directory', h.symm⟩
  · rintro ⟨folder, name, entry, folder', name', replaced, ⟨hspot, hfound⟩, directory,
      ⟨hspot', hfound'⟩, directory', rfl⟩
    simp [rename, bind, Except.bind, hspot, hspot', hfound, hfound', directory']

/-- A path that leads to a file leads to something. -/
theorem leadsTo_of_file {content : Bytes}
    (h : tree.Finds .reading path folder name (some (.file content))) :
    tree.leadsTo path = true := by
  simp [leadsTo, h.located, h.found]

/-! ## What the changes leave -/

variable {place : Place} {content bytes : Bytes} {entry : Entry}

theorem find_insert_self {folder : Place} (h : Utf8.size name ≤ maxNameSize) :
    (tree.insert (name :: folder) entry).find folder name = .ok (some entry) := by
  rw [find_eq_ok_iff, get?_insert tree (List.cons_ne_nil name folder), if_pos rfl]
  exact ⟨h, rfl⟩

/-- The later of two insertions at a place counts. -/
theorem insert_insert (e : Entry) : (tree.insert place e).insert place entry
    = tree.insert place entry := by
  have hmap : ∀ es : List (Place × Entry),
      ((es.map fun x => if x.1 = place then (place, e) else x).map fun x =>
        if x.1 = place then (place, entry) else x)
        = es.map fun x => if x.1 = place then (place, entry) else x := by
    intro es
    rw [List.map_map]
    refine List.map_congr_left fun x _ => ?_
    by_cases hx : x.1 = place <;> simp [hx]
  unfold insert
  by_cases h : (tree.entries.lookup place).isSome = true
  · have h' : ((tree.entries.map fun x => if x.1 = place then (place, e) else x).lookup
        place).isSome = true := by
      simp [lookup_map_replace place tree.entries h]
    simp only [if_pos h, if_pos h', hmap]
  · have hnone := Option.not_isSome_iff_eq_none.1 h
    have hne := ne_of_lookup_eq_none hnone
    have hkept : (tree.entries.map fun x => if x.1 = place then (place, entry) else x)
        = tree.entries :=
      (List.map_congr_left fun x hx => if_neg (hne x hx)).trans (List.map_id' _)
    simp [List.lookup_append, hnone, hkept]

/-- What is put at a place goes with the place. -/
theorem erase_insert_self : (tree.insert place entry).erase place = tree.erase place := by
  have hfilter : ∀ es : List (Place × Entry),
      (es.map fun x => if x.1 = place then (place, entry) else x).filter (fun x => x.1 ≠ place)
        = es.filter fun x => x.1 ≠ place := by
    intro es
    induction es with
    | nil => rfl
    | cons x es ih => by_cases hx : x.1 = place <;> simpa [hx] using ih
  unfold insert erase
  split
  · rw [hfilter]
  · simp [List.filter_append]

/-- **Bytes written to a file that was just made** are its content. -/
theorem append_insert : (tree.insert (name :: folder) (.file content)).append (name :: folder) bytes
    = tree.insert (name :: folder) (.file (content ++ bytes)) := by
  rw [append, get?_insert tree (List.cons_ne_nil name folder), if_pos rfl]
  exact insert_insert _

/-- What is written piece by piece is written in one piece. -/
theorem append_append (first second : Bytes) :
    (tree.append place first).append place second = tree.append place (first ++ second) := by
  cases place with
  | nil => rfl
  | cons name folder =>
      rcases hfound : tree.get? (name :: folder) with _ | _ | _ | _
      case some.file content =>
        have happend : ∀ bytes, tree.append (name :: folder) bytes
            = tree.insert (name :: folder) (.file (content ++ bytes)) := fun bytes => by
          rw [append, hfound]
        rw [happend, happend, append_insert, List.append_assoc]
      all_goals simp [append, hfound]

/-- A file put where neither a directory nor a link stands keeps the ways. -/
theorem hasWays_insert_file (hplace : place ≠ [])
    (free : ∀ entry, tree.get? place = some entry → ∃ content, entry = .file content) :
    (tree.insert place (.file content)).HasWays tree := by
  intro other entry hentry noFile
  rw [get?_insert tree hplace, if_neg]
  · exact hentry
  · rintro rfl
    obtain ⟨content', rfl⟩ := free entry hentry
    exact noFile content' rfl

/-- A file brings no way with it, and it may block one. -/
theorem hasWays_of_insert_file (hplace : place ≠ []) :
    tree.HasWays (tree.insert place (.file content)) := by
  intro other entry hentry noFile
  rw [get?_insert tree hplace] at hentry
  split at hentry
  · exact absurd (Option.some.inj hentry).symm (noFile content)
  · exact hentry

/-- **A file that is put where a path leads is found there**, if there was a file or nothing. -/
theorem Finds.insert_file {replaced : Option Entry}
    (h : tree.Finds purpose path folder name replaced)
    (free : ∀ entry, replaced = some entry → ∃ content, entry = .file content) :
    (tree.insert (name :: folder) (.file content)).Finds purpose path folder name
      (some (.file content)) := by
  obtain ⟨hsize, rfl⟩ := find_eq_ok_iff.1 h.found
  exact ⟨locate_congr (hasWays_insert_file nofun free) (hasWays_of_insert_file nofun) h.located,
    find_insert_self hsize⟩

/-- What is found at a path is still found after a file was put where there was none or another. -/
theorem Finds.insert_elsewhere (h : tree.Finds .entry path folder name (some entry))
    (free : ∀ other, tree.get? place = some other → ∃ content, other = .file content)
    (hplace : place ≠ []) :
    (tree.insert place (.file content)).Finds .entry path folder name
      (some (if name :: folder = place then .file content else entry)) := by
  obtain ⟨hsize, hget⟩ := find_eq_ok_iff.1 h.found
  refine ⟨locate_mono (hasWays_insert_file hplace free) h.located, find_eq_ok_iff.2 ⟨hsize, ?_⟩⟩
  rw [get?_insert tree hplace, hget]
  split <;> rfl

/-- **What is found at a path is untouched** by a file that is put at another place. -/
theorem Finds.insert_apart {found : Option Entry}
    (h : tree.Finds .entry path folder name found)
    (free : ∀ other, tree.get? place = some other → ∃ content, other = .file content)
    (hplace : place ≠ []) (hne : name :: folder ≠ place) :
    (tree.insert place (.file content)).Finds .entry path folder name found := by
  obtain ⟨hsize, hget⟩ := find_eq_ok_iff.1 h.found
  refine ⟨locate_mono (hasWays_insert_file hplace free) h.located, find_eq_ok_iff.2 ⟨hsize, ?_⟩⟩
  rw [get?_insert tree hplace, if_neg hne, hget]

/-- What is found where a file could be made is found for reading. -/
theorem Finds.reading {found : Option Entry} (h : tree.Finds .creating path folder name found) :
    tree.Finds .reading path folder name found := by
  obtain ⟨usable, leads⟩ := locate_eq_ok_iff.1 h.located
  exact ⟨locate_eq_ok_iff.2 ⟨usable, leads.of_noSlash rfl rfl rfl⟩, h.found⟩

/-- A cleared place brings no way with it. -/
theorem hasWays_of_erase (hplace : place ≠ []) : tree.HasWays (tree.erase place) := by
  intro other entry hentry _
  rw [get?_erase tree hplace] at hentry
  split at hentry
  · cases hentry
  · exact hentry

/-- A file at a place lets through what the cleared place lets through, and no more. -/
theorem hasWays_insert_file_iff_erase (hplace : place ≠ []) :
    (tree.insert place (.file content)).HasWays (tree.erase place) ∧
      (tree.erase place).HasWays (tree.insert place (.file content)) := by
  constructor
  · intro other entry hentry _
    rw [get?_erase tree hplace] at hentry
    rw [get?_insert tree hplace]
    split at hentry
    · cases hentry
    next hne => rwa [if_neg hne]
  · intro other entry hentry noFile
    rw [get?_insert tree hplace] at hentry
    rw [get?_erase tree hplace]
    split at hentry
    · exact absurd (Option.some.inj hentry).symm (noFile content)
    next hne => rwa [if_neg hne]

end FileTree

end ModuleRoster
