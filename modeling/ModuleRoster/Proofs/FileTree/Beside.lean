import ModuleRoster.Proofs.FileTree.Access

/-!
# Proofs/FileTree/Beside — a longer name in the same folder

A text put behind a path lengthens its last name and nothing else, as long as it has no slash and
the path ends in a name.  So the longer path leads to an entry beside the one of the path
(`locate_append`).
-/

namespace ModuleRoster

namespace Path

theorem pieces_of_noSlash : ∀ {u : Text}, '/' ∉ u → pieces u = [u]
  | [], _ => rfl
  | c :: u, h => by
      obtain ⟨hc, hu⟩ : '/' ≠ c ∧ '/' ∉ u := by simpa using h
      rw [pieces, if_neg (Ne.symm hc), pieces_of_noSlash hu, Text.growFirst]

/-- **What is put behind a path goes into its last piece**, which is empty only if there is nothing
behind the last slash. -/
theorem pieces_append {u : Text} (hu : '/' ∉ u) : ∀ t : Text, ∃ dir last,
    pieces t = dir ++ [last] ∧ pieces (t ++ u) = dir ++ [last ++ u] ∧
      (last = [] → dir = [] ∧ t = [] ∨ t.getLast? = some '/')
  | [] => ⟨[], [], rfl, by simp [pieces_of_noSlash hu], fun _ => Or.inl ⟨rfl, rfl⟩⟩
  | c :: t => by
      obtain ⟨dir, last, ht, htu, hlast⟩ := pieces_append hu t
      have hcons : t.getLast? = some '/' → (c :: t).getLast? = some '/' := fun h => by
        simp [List.getLast?_cons, h]
      by_cases hc : c = '/'
      · subst hc
        refine ⟨[] :: dir, last, by simp [pieces, ht], by simp [pieces, htu], fun h => ?_⟩
        rcases hlast h with ⟨_, rfl⟩ | hlast
        · exact Or.inr rfl
        · exact Or.inr (hcons hlast)
      · match dir, ht, htu, hlast with
        | [], ht, htu, _ =>
            exact ⟨[], c :: last, by simp [pieces, hc, ht, Text.growFirst],
              by simp [pieces, hc, htu, Text.growFirst], nofun⟩
        | d :: dir, ht, htu, hlast =>
            refine ⟨(c :: d) :: dir, last, by simp [pieces, hc, ht, Text.growFirst],
              by simp [pieces, hc, htu, Text.growFirst], fun h => ?_⟩
            rcases hlast h with ⟨hdir, _⟩ | hlast
            · cases hdir
            · exact Or.inr (hcons hlast)

/-- What is put behind a path is behind all its slashes. -/
theorem slash_append (t : Text) {u : Text} (hu : '/' ∉ u) (hne : u ≠ []) :
    (ofText (t ++ u)).slash = false := by
  have hend : u.getLast? ≠ some '/' := fun h => hu (List.mem_of_getLast? h)
  rw [List.getLast?_eq_some_getLast hne] at hend
  simpa [ofText, List.getLast?_append, List.getLast?_eq_some_getLast hne] using hend

/-- **Whatever is put behind a path lengthens the same name**, which may be empty before. -/
theorem names_of_append (t : Text) : ∃ dir last, ∀ {u : Text}, '/' ∉ u → u ≠ [] →
    (ofText (t ++ u)).names = dir ++ [last ++ u] ∧ (ofText (t ++ u)).slash = false := by
  obtain ⟨dir, last, hpieces, -⟩ := pieces_append (List.not_mem_nil : '/' ∉ []) t
  refine ⟨dir.filter fun n => !n.isEmpty, last, fun {u} hu hne => ?_⟩
  obtain ⟨dir', last', hpieces', hlonger, -⟩ := pieces_append hu t
  obtain ⟨rfl, hlast⟩ := List.append_inj' (hpieces.symm.trans hpieces') rfl
  obtain rfl := (List.cons.inj hlast).1
  exact ⟨by simp [ofText, hlonger, hne], slash_append t hu hne⟩

/-- **The names of a lengthened path.** -/
theorem names_append {t u : Text} (ht : t ≠ []) (hslash : (ofText t).slash = false)
    (hu : '/' ∉ u) (hne : u ≠ []) : ∃ dir last,
      (ofText t).names = dir ++ [last] ∧ (ofText (t ++ u)).names = dir ++ [last ++ u] ∧
        (ofText (t ++ u)).slash = false := by
  obtain ⟨dir, last, hpieces, hlonger, hlast⟩ := pieces_append hu t
  have hend : t.getLast? ≠ some '/' := by simpa [ofText] using hslash
  have hname : last ≠ [] := fun h => by
    rcases hlast h with ⟨_, h⟩ | h
    · exact ht h
    · exact hend h
  refine ⟨dir.filter fun n => !n.isEmpty, last, ?_, ?_, slash_append t hu hne⟩
  · simp [ofText, hpieces, hname]
  · simp [ofText, hlonger, hne]

/-- A name with a hyphen is neither of the two that are not looked up. -/
theorem isProper_of_hyphen {name : Text} (h : '-' ∈ name) : IsProper name :=
  ⟨fun e => absurd (e ▸ h) (by decide), fun e => absurd (e ▸ h) (by decide)⟩

end Path

namespace FileTree

/-- A longer name stands at another place. -/
theorem beside_ne {name suffix : Text} (folder : Place) (h : suffix ≠ []) :
    (name ++ suffix) :: folder ≠ name :: folder := by
  intro hsame
  exact h (List.append_right_eq_self.1 (List.cons.inj hsame).1)

/-- **A lengthened path leads to an entry beside.** -/
theorem locate_append {tree : FileTree} {path suffix name : Text} {folder : Place}
    (h : tree.locate .entry path = .ok ⟨folder, some name, false⟩)
    (usable : Path.IsUsable (path ++ suffix)) (noSlash : '/' ∉ suffix) (hyphen : '-' ∈ suffix) :
    tree.locate .entry (path ++ suffix) = .ok ⟨folder, some (name ++ suffix), false⟩ := by
  obtain ⟨hpath, leads⟩ := locate_eq_ok_iff.1 h
  have hsuffix : suffix ≠ [] := List.ne_nil_of_mem hyphen
  -- the walk hands the slash of the path on, so there is none
  have hslash : (Path.ofText path).slash = false := by
    rcases List.eq_nil_or_concat (Path.ofText path).names with hnames | ⟨dir, last, hnames⟩
    · rw [hnames] at leads
      cases leads
    · rw [hnames, List.concat_eq_append] at leads
      exact leads.sibling.2.1.symm
  obtain ⟨dir, last, hnames, hlonger, hslash'⟩ :=
    Path.names_append hpath.ne_nil hslash noSlash hsuffix
  rw [hnames, hslash] at leads
  obtain ⟨rfl, -, -, beside⟩ := leads.sibling
  rw [locate_eq_ok_iff, hlonger, hslash']
  exact ⟨usable, beside _ (Path.isProper_of_hyphen (List.mem_append_right _ hyphen))⟩

/-- **A lengthened path leads to an entry in the folder of its last name**, if it leads anywhere.
What is lengthened depends on the path alone. -/
theorem exists_last_of_append (path : Text) : ∃ last, ∀ {tree : FileTree} {suffix : Text}
    {spot : Spot}, '/' ∉ suffix → '-' ∈ suffix →
      tree.locate .entry (path ++ suffix) = .ok spot →
        ∃ folder, spot = ⟨folder, some (last ++ suffix), false⟩ := by
  obtain ⟨dir, last, hlonger⟩ := Path.names_of_append path
  refine ⟨last, fun noSlash hyphen h => ?_⟩
  obtain ⟨hnames, hslash⟩ := hlonger noSlash (List.ne_nil_of_mem hyphen)
  obtain ⟨-, leads⟩ := locate_eq_ok_iff.1 h
  rw [hnames, hslash] at leads
  exact leads.ends_in_last (Path.isProper_of_hyphen (List.mem_append_right _ hyphen))

end FileTree

end ModuleRoster
