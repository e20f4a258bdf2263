import Mathlib.Data.List.DropRight
import ModuleRoster.Proofs.Encoding.Utf8Fault
import ModuleRoster.Proofs.FileTree.Beside
import ModuleRoster.Proofs.FileTree.Vacant
import ModuleRoster.Proofs.Text.Lines

/-!
# Proofs/FileTree/Folder — the folder of a path, and what is left to do in it

A path is cut behind its last slash into a folder part and a last part.  To walk the path is to walk
the folder part first, and that does not depend on the last part or on what the path is wanted for
(`walk_concat`).  So `enter` says once how this walk ends: with a fault that every path into the
folder has, or in a directory where the last part alone is looked up (`locate_of_enter`).
-/

namespace ModuleRoster

/-! ## How long a text is -/

theorem Utf8.size_append (t u : Text) : size (t ++ u) = size t + size u := by
  simp [size, encode]

theorem Utf8.size_pos {t : Text} (h : t ≠ []) : 0 < size t := by
  obtain ⟨c, rest, rfl⟩ := List.exists_cons_of_ne_nil h
  have hpos := List.length_pos_iff.2 (encodeChar_ne_nil c)
  rw [size, encode_cons, List.length_append]
  omega

namespace Path

variable {t u : Text}

/-! ## Two parts of a path -/

/-- **The path up to its last slash**, which is the last character of this part. -/
def folderPart (t : Text) : Text := t.rdropWhile (· ≠ '/')

/-- **What is behind the last slash.** -/
def lastPart (t : Text) : Text := t.rtakeWhile (· ≠ '/')

theorem folderPart_append_lastPart (t : Text) : folderPart t ++ lastPart t = t :=
  List.rdropWhile_append_rtakeWhile ..

theorem noSlash_lastPart (t : Text) : '/' ∉ lastPart t := fun h => by
  simpa using List.mem_rtakeWhile_imp h

/-- A folder part is empty or ends with a slash. -/
theorem folderPart_eq (t : Text) : folderPart t = [] ∨ ∃ s, folderPart t = s ++ ['/'] := by
  rcases List.eq_nil_or_concat (folderPart t) with h | ⟨s, c, h⟩
  · exact Or.inl h
  · have hne : folderPart t ≠ [] := by simp [h]
    have hlast := List.rdropWhile_last_not (· ≠ '/') t hne
    have hc : (folderPart t).getLast hne = c := by simp [h]
    rw [show (t.rdropWhile (· ≠ '/')).getLast hne = c from hc] at hlast
    obtain rfl : c = '/' := by simpa using hlast
    exact Or.inr ⟨s, by simpa using h⟩

/-- **A text without a slash goes into the last part.** -/
theorem parts_append (hu : '/' ∉ u) (t : Text) :
    folderPart (t ++ u) = folderPart t ∧ lastPart (t ++ u) = lastPart t ++ u := by
  induction u using List.reverseRecOn with
  | nil => simp
  | append_singleton u c ih =>
      obtain ⟨hmem, hc⟩ : '/' ∉ u ∧ '/' ≠ c := by simpa using hu
      have hother : decide (c ≠ '/') = true := by simpa using Ne.symm hc
      obtain ⟨hfolder, hlast⟩ := ih hmem
      rw [← List.append_assoc, ← List.append_assoc, ← hlast]
      exact ⟨(List.rdropWhile_concat_pos (· ≠ '/') (t ++ u) c hother).trans hfolder,
        List.rtakeWhile_concat_pos (· ≠ '/') (t ++ u) c hother⟩

/-- **A path that ends in a name**: behind its last slash there is one, and it is looked up. -/
structure EndsInName (t : Text) : Prop where
  ne_nil : lastPart t ≠ []
  proper : IsProper (lastPart t)

/-- So does a path that is lengthened by a text with a hyphen, whatever it ended in. -/
theorem endsInName_append (noSlash : '/' ∉ u) (hyphen : '-' ∈ u) (t : Text) :
    EndsInName (t ++ u) := by
  have hmem : '-' ∈ lastPart (t ++ u) :=
    (parts_append noSlash t).2 ▸ List.mem_append_right _ hyphen
  exact ⟨List.ne_nil_of_mem hmem, isProper_of_hyphen hmem⟩

/-- A path can be walked if a longer one can. -/
theorem IsUsable.of_append (usable : IsUsable (t ++ u)) (ht : t ≠ []) : IsUsable t := by
  refine ⟨fun h => usable.noNull (List.mem_append_left u h), ht,
    Nat.le_trans ?_ usable.size_le⟩
  rw [Utf8.size_append]
  exact Nat.le_add_right _ _

/-- The path of the folder can be walked if the path can. -/
theorem IsUsable.folder (usable : IsUsable t) (named : EndsInName t) :
    IsUsable (folderPart t ++ here) := by
  have hparts := folderPart_append_lastPart t
  refine ⟨?_, by simp [here], Nat.le_trans ?_ usable.size_le⟩
  · have noNull : '\x00' ∉ folderPart t := fun h =>
      usable.noNull (hparts ▸ List.mem_append_left _ h)
    simpa [here] using noNull
  · have hpos := Utf8.size_pos named.ne_nil
    have hsize : Utf8.size t = Utf8.size (folderPart t) + Utf8.size (lastPart t) := by
      rw [← Utf8.size_append, hparts]
    have hone : Utf8.size here = 1 := rfl
    rw [Utf8.size_append, hone, hsize]
    omega

/-! ## The names of the parts -/

theorem pieces_ne_nil : ∀ t : Text, pieces t ≠ []
  | [] => List.cons_ne_nil _ _
  | c :: t => by
      by_cases hc : c = '/'
      · simp [pieces, hc]
      · cases h : pieces t <;> simp [pieces, hc, h, Text.growFirst]

/-- **A slash keeps the pieces apart.** -/
theorem pieces_append_slash (u : Text) : ∀ t : Text,
    pieces (t ++ '/' :: u) = pieces t ++ pieces u
  | [] => by simp [pieces]
  | c :: t => by
      rw [List.cons_append, pieces, pieces, pieces_append_slash u t]
      split
      · rfl
      · exact Text.growFirst_append c (pieces_ne_nil t) (pieces u)

/-- **A name that is put behind a folder part is the last name of the path**, and the names before
it are always the same. -/
theorem names_folderPart (t : Text) : ∃ dir, ∀ {u : Text}, '/' ∉ u → u ≠ [] →
    (ofText (folderPart t ++ u)).names = dir ++ [u] ∧
      (ofText (folderPart t ++ u)).slash = false := by
  rcases folderPart_eq t with h | ⟨s, h⟩
  · refine ⟨[], fun hu hne => ⟨?_, slash_append _ hu hne⟩⟩
    simp [h, ofText, pieces_of_noSlash hu, hne]
  · refine ⟨(pieces s).filter fun n => !n.isEmpty, fun {u} hu hne => ⟨?_, slash_append _ hu hne⟩⟩
    rw [h, List.append_assoc, List.singleton_append]
    simp [ofText, pieces_append_slash, pieces_of_noSlash hu, hne]

end Path

namespace FileTree

variable {tree : FileTree} {purpose : Purpose} {path : Text} {base : Place} {fault : PathFault}

/-! ## Walking up to the last name -/

/-- **A walk comes to its last name**, whatever this name is and whatever the path is wanted for, or
it fails before, always with the same fault.  If it comes there, it is in a directory, and the last
name is still to be walked. -/
def ComesToLast (tree : FileTree) (walk : Purpose → Text → Bool → Except PathFault Spot) : Prop :=
  (∃ fault, ∀ purpose last slash, walk purpose last slash = .error fault) ∨
    ∃ base left, ∀ purpose last slash,
      walk purpose last slash = tree.walk purpose left base [last] slash

/-- A walk comes to its last name if it does so behind the links that it meets. -/
theorem comesToLast_of_onward {links : Nat}
    (ih : ∀ folder names, tree.ComesToLast fun purpose last slash =>
      tree.onward purpose links folder (names ++ [last]) slash) :
    ∀ (names : List Text) (folder : Place), tree.ComesToLast fun purpose last slash =>
      tree.walk purpose links folder (names ++ [last]) slash
  | [], folder => Or.inr ⟨folder, links, fun _ _ _ => rfl⟩
  | name :: names, folder => by
      by_cases here : name = Path.here
      · subst here
        simpa only [List.cons_append, walk_here] using comesToLast_of_onward ih names folder
      by_cases above : name = Path.above
      · subst above
        simpa only [List.cons_append, walk_above] using comesToLast_of_onward ih names folder.tail
      -- the name is looked up, since the last one comes behind it
      have more : ∀ last : Text, names ++ [last] ≠ [] := by simp
      have step := fun purpose last slash =>
        @walk_cons tree purpose links folder name (names ++ [last]) slash ⟨here, above⟩
          (Or.inl (more last))
      rcases hfound : tree.find folder name with fault | _ | content | _ | target
      · exact Or.inl ⟨fault, fun purpose last slash => by simp [step, hfound]⟩
      · exact Or.inl ⟨.missing, fun purpose last slash => by simp [step, hfound]⟩
      · exact Or.inl ⟨.notDirectory, fun purpose last slash => by simp [step, hfound]⟩
      · simpa [step, hfound] using comesToLast_of_onward ih names (name :: folder)
      · have kept : ∀ (last : Text) slash,
            (slash || ((names ++ [last]).isEmpty && (Path.ofText target).slash)) = slash := by simp
        simpa [step, hfound, kept] using
          ih (linkBase folder target) ((Path.ofText target).names ++ names)

/-- **Every walk comes to its last name or fails before.**  The induction is on the links, since the
target of a link brings new names. -/
theorem comesToLast (tree : FileTree) (links : Nat) (folder : Place) (names : List Text) :
    tree.ComesToLast fun purpose last slash =>
      tree.walk purpose links folder (names ++ [last]) slash := by
  induction links generalizing folder names with
  | zero => exact comesToLast_of_onward (fun _ _ => Or.inl ⟨.tooManyLinks, fun _ _ _ => rfl⟩) _ _
  | succ links ih => exact comesToLast_of_onward (fun folder names => ih folder names) _ _

/-! ## The folder -/

/-- **Open the folder of a path**: walk the path with its last part put off. -/
def enter (tree : FileTree) (path : Text) : Except PathFault Place :=
  (tree.locate .reading (Path.folderPart path ++ Path.here)).map Spot.folder

/-- A lengthened path is in the folder of the path. -/
theorem enter_append {suffix : Text} (noSlash : '/' ∉ suffix) :
    tree.enter (path ++ suffix) = tree.enter path := by
  rw [enter, enter, (Path.parts_append noSlash path).1]

theorem locate_eq_walk (usable : Path.IsUsable path) : tree.locate purpose path
    = tree.walk purpose maxLinks [] (Path.ofText path).names (Path.ofText path).slash := by
  rw [locate, if_neg (by simpa using usable.noNull), if_neg usable.ne_nil,
    if_neg (Nat.not_lt.2 usable.size_le)]

/-- A path that is too long is not walked at all. -/
theorem locate_of_longPath (noNull : '\x00' ∉ path) (hne : path ≠ [])
    (long : maxPathSize < Utf8.size path) : tree.locate purpose path = .error .nameTooLong := by
  rw [locate, if_neg (by simpa using noNull), if_neg hne, if_pos long]

/-- **A path fails as its folder does, or its last part is walked from there.** -/
theorem enter_cases (tree : FileTree) (usable : Path.IsUsable path)
    (named : Path.EndsInName path) :
    (∃ fault, tree.enter path = .error fault ∧ ∀ purpose, tree.locate purpose path = .error fault) ∨
    ∃ base left, tree.enter path = .ok base ∧ ∀ purpose,
      tree.locate purpose path = tree.walk purpose left base [Path.lastPart path] false := by
  obtain ⟨dir, hdir⟩ := Path.names_folderPart path
  have hwalk : ∀ {u : Text} purpose, '/' ∉ u → u ≠ [] →
      Path.IsUsable (Path.folderPart path ++ u) →
      tree.locate purpose (Path.folderPart path ++ u)
        = tree.walk purpose maxLinks [] (dir ++ [u]) false := fun purpose noSlash hne usable => by
    obtain ⟨hnames, hslash⟩ := hdir noSlash hne
    rw [locate_eq_walk usable, hnames, hslash]
  have hpath := fun purpose => hwalk purpose (Path.noSlash_lastPart path) named.ne_nil
    (by rwa [Path.folderPart_append_lastPart])
  have hfolder := hwalk .reading (by decide) (by decide) (usable.folder named)
  rw [Path.folderPart_append_lastPart] at hpath
  rcases tree.comesToLast maxLinks [] dir with ⟨fault, h⟩ | ⟨base, left, h⟩
  · refine Or.inl ⟨fault, ?_, fun purpose => (hpath purpose).trans (h ..)⟩
    rw [enter, hfolder.trans (h ..), Except.map]
  · refine Or.inr ⟨base, left, ?_, fun purpose => (hpath purpose).trans (h ..)⟩
    rw [enter, hfolder.trans (h ..), walk_here, walk_nil, Except.map]

section

variable (usable : Path.IsUsable path) (named : Path.EndsInName path)
include usable named

/-- **The fault of a folder is that of every path into it.** -/
theorem locate_of_closed (closed : tree.enter path = .error fault) (purpose : Purpose) :
    tree.locate purpose path = .error fault := by
  rcases tree.enter_cases usable named with ⟨fault', h, hpath⟩ | ⟨base, _, h, _⟩
  · cases h.symm.trans closed
    exact hpath purpose
  · cases h.symm.trans closed

/-- **The entry of a path is in its folder**, under the last part of the path. -/
theorem locate_of_enter (h : tree.enter path = .ok base) :
    tree.locate .entry path = .ok ⟨base, some (Path.lastPart path), false⟩ := by
  rcases tree.enter_cases usable named with ⟨_, hfault, _⟩ | ⟨_, left, hbase, hpath⟩
  · cases hfault.symm.trans h
  · cases hbase.symm.trans h
    rw [hpath, walk_unread named.proper rfl]

/-- **What stands at a path is found in its folder**, if the last part is not too long. -/
theorem finds_of_enter (h : tree.enter path = .ok base)
    (short : Utf8.size (Path.lastPart path) ≤ maxNameSize) :
    tree.Finds .entry path base (Path.lastPart path) (tree.entryAt? path) := by
  have hfinds : tree.Finds .entry path base (Path.lastPart path) _ :=
    ⟨locate_of_enter usable named h, find_eq_ok_iff.2 ⟨short, rfl⟩⟩
  rwa [hfinds.entryAt?]

/-- **A last part that is too long is found out** when it is looked up. -/
theorem locate_of_longName (h : tree.enter path = .ok base)
    (long : maxNameSize < Utf8.size (Path.lastPart path)) (follows : purpose.follows false = true) :
    tree.locate purpose path = .error .nameTooLong := by
  rcases tree.enter_cases usable named with ⟨_, hfault, _⟩ | ⟨_, left, hbase, hpath⟩
  · cases hfault.symm.trans h
  · cases hbase.symm.trans h
    rw [hpath, walk_cons named.proper (Or.inr follows), find, if_pos long]

end

end FileTree

/-! ## Steps that stay

A path can be made as long as one likes by names that stay where they are. -/

namespace Path

variable {t : Text}

/-- **The path of so many steps that stay.** -/
def staying (n : Nat) : Text := (List.replicate n ['.', '/']).flatten

theorem staying_succ_append (n : Nat) (t : Text) :
    staying (n + 1) ++ t = '.' :: '/' :: (staying n ++ t) := rfl

theorem size_staying_append (t : Text) : ∀ n, Utf8.size (staying n ++ t) = 2 * n + Utf8.size t
  | 0 => by simp [staying]
  | n + 1 => by
      have hstep := Utf8.size_append ['.', '/'] (staying n ++ t)
      have htwo : Utf8.size ['.', '/'] = 2 := rfl
      have ih := size_staying_append t n
      rw [staying_succ_append]
      simp only [List.cons_append, List.nil_append] at hstep
      omega

/-- **A path keeps its last part** when it is put behind a slash. -/
theorem parts_append_slash (s t : Text) : folderPart (s ++ '/' :: t) = s ++ '/' :: folderPart t ∧
    lastPart (s ++ '/' :: t) = lastPart t := by
  have hfolder : folderPart (s ++ '/' :: t) = s ++ '/' :: folderPart t := by
    simp [folderPart, List.rdropWhile, List.dropWhile_append]
  refine ⟨hfolder, ?_⟩
  have hwhole := folderPart_append_lastPart (s ++ '/' :: t)
  have hparts := folderPart_append_lastPart t
  rw [hfolder, List.append_assoc, List.append_cancel_left_eq, List.cons_append] at hwhole
  exact List.append_cancel_left ((List.cons.inj hwhole).2.trans hparts.symm)

theorem noNull_staying_append (n : Nat) (noNull : '\x00' ∉ t) : '\x00' ∉ staying n ++ t := by
  simpa [staying] using noNull

theorem parts_staying_append (t : Text) : ∀ n,
    folderPart (staying n ++ t) = staying n ++ folderPart t ∧ lastPart (staying n ++ t) = lastPart t
  | 0 => ⟨rfl, rfl⟩
  | n + 1 => by
      obtain ⟨hfolder, hlast⟩ := parts_append_slash ['.'] (staying n ++ t)
      obtain ⟨ihfolder, ihlast⟩ := parts_staying_append t n
      exact ⟨hfolder.trans (congrArg ('.' :: '/' :: ·) ihfolder), hlast.trans ihlast⟩

theorem EndsInName.staying_append (ends : EndsInName t) (n : Nat) :
    EndsInName (staying n ++ t) := by
  have hlast := (parts_staying_append t n).2
  exact ⟨hlast ▸ ends.ne_nil, hlast ▸ ends.proper⟩

end Path

namespace FileTree

variable {tree : FileTree} {purpose : Purpose} {t : Text}

/-- **Steps that stay lead nowhere else**, as long as the path can be walked. -/
theorem locate_staying_append (ht : t ≠ []) : ∀ {n}, Path.IsUsable (Path.staying n ++ t) →
    tree.locate purpose (Path.staying n ++ t) = tree.locate purpose t
  | 0, _ => rfl
  | n + 1, usable => by
      have hne : Path.staying n ++ t ≠ [] := by simp [ht]
      have shorter : Path.IsUsable (Path.staying n ++ t) := by
        refine ⟨fun h => usable.noNull ?_, hne, Nat.le_trans ?_ usable.size_le⟩
        · exact List.mem_cons_of_mem _ (List.mem_cons_of_mem _ h)
        · rw [Path.size_staying_append, Path.size_staying_append]
          omega
      rw [← locate_staying_append ht shorter, locate_eq_walk usable, locate_eq_walk shorter,
        Path.staying_succ_append]
      have hnames : (Path.ofText ('.' :: '/' :: (Path.staying n ++ t))).names
          = Path.here :: (Path.ofText (Path.staying n ++ t)).names := by
        simp [Path.ofText, Path.pieces, Text.growFirst, Path.here]
      have hslash : (Path.ofText ('.' :: '/' :: (Path.staying n ++ t))).slash
          = (Path.ofText (Path.staying n ++ t)).slash := by
        simp [Path.ofText, List.getLast?_cons, List.getLast?_eq_some_getLast hne]
      rw [hnames, hslash, walk_here]

section

variable {n : Nat} (usable : Path.IsUsable (Path.staying n ++ t))
include usable

theorem entryAt?_staying_append (ht : t ≠ []) :
    tree.entryAt? (Path.staying n ++ t) = tree.entryAt? t := by
  rw [entryAt?, entryAt?, locate_staying_append ht usable]

theorem enter_staying_append (ends : Path.EndsInName t) :
    tree.enter (Path.staying n ++ t) = tree.enter t := by
  have hfolder := usable.folder (ends.staying_append n)
  rw [enter, enter]
  rw [(Path.parts_staying_append t n).1, List.append_assoc] at hfolder ⊢
  rw [locate_staying_append (by simp [Path.here]) hfolder]

end

end FileTree

end ModuleRoster
