import ModuleRoster.Text.Order

/-!
# FileTree/Basic — a tree of files, directories and symbolic links

A tree assigns entries to places, and the root is always a directory.  `get?` is the view: `insert`
changes what it shows at one place, `erase` clears one place, and erasing what was inserted at a
free place gives back the very same tree (`erase_insert`).
-/

namespace ModuleRoster

/-- **A place in the tree**: the names on the way to it, the innermost first; the root is `[]`. -/
abbrev Place := List Text

/-- What may stand at a place.  The target of a link is kept as it was given. -/
inductive Entry
  | file (content : Bytes)
  | directory
  | link (target : Text)
  deriving DecidableEq, Repr

/-- **A tree**: its entries with their places, the root left out. -/
structure FileTree where
  entries : List (Place × Entry)
  deriving DecidableEq, Repr

namespace FileTree

/-- The tree that has a root and nothing else. -/
def empty : FileTree := ⟨[]⟩

/-- The entry at a place. -/
def get? (tree : FileTree) : Place → Option Entry
  | [] => some .directory
  | p => tree.entries.lookup p

/-- Put an entry at a place, in the stead of the one that is there. -/
def insert (tree : FileTree) (p : Place) (e : Entry) : FileTree :=
  if (tree.entries.lookup p).isSome then
    ⟨tree.entries.map fun x => if x.1 = p then (p, e) else x⟩
  else ⟨tree.entries ++ [(p, e)]⟩

/-- Clear a place. -/
def erase (tree : FileTree) (p : Place) : FileTree := ⟨tree.entries.filter fun x => x.1 ≠ p⟩

/-! ## The view of a changed tree -/

theorem get?_cons (tree : FileTree) (n : Text) (p : Place) :
    tree.get? (n :: p) = tree.entries.lookup (n :: p) := rfl

theorem ne_of_lookup_eq_none {p : Place} {es : List (Place × Entry)} (h : es.lookup p = none)
    (x : Place × Entry) (hx : x ∈ es) : x.1 ≠ p := by
  intro hp
  have := List.lookup_eq_none_iff.1 h x hx
  simp [hp] at this

theorem lookup_map_replace {p : Place} {e : Entry} (q : Place) :
    ∀ es : List (Place × Entry), (es.lookup p).isSome →
      (es.map fun x => if x.1 = p then (p, e) else x).lookup q =
        if q = p then some e else es.lookup q
  | [], h => by simp at h
  | x :: es, h => by
      obtain ⟨r, d⟩ := x
      by_cases hr : r = p
      · subst hr
        by_cases hq : q = r
        · simp [hq]
        · have hq' : (q == r) = false := by simpa using hq
          by_cases hes : (es.lookup r).isSome
          · simp [List.lookup_cons, hq', hq, lookup_map_replace q es hes]
          · simp only [List.map_cons, if_true, List.lookup_cons, hq', hq, if_false]
            congr 1
            have hmem := ne_of_lookup_eq_none (Option.not_isSome_iff_eq_none.1 hes)
            exact (List.map_congr_left fun y hy => if_neg (hmem y hy)).trans (List.map_id' es)
      · have hpr : (p == r) = false := by simpa using Ne.symm hr
        have hes : (es.lookup p).isSome := by simpa [List.lookup_cons, hpr] using h
        by_cases hq : q = r
        · subst hq
          simp [hr]
        · have hq' : (q == r) = false := by simpa using hq
          simp [List.lookup_cons, hr, hq', lookup_map_replace q es hes]

/-- **An insertion shows at its place and nowhere else.** -/
theorem get?_insert (tree : FileTree) {p : Place} (hp : p ≠ []) (e : Entry) (q : Place) :
    (tree.insert p e).get? q = if q = p then some e else tree.get? q := by
  cases q with
  | nil => simp [get?, Ne.symm hp]
  | cons n q =>
      rw [get?_cons, get?_cons, insert]
      split
      next h => exact lookup_map_replace _ _ h
      next h =>
        have hnone := Option.not_isSome_iff_eq_none.1 h
        by_cases hq : n :: q = p
        · subst hq
          simp [List.lookup_append, hnone]
        · have hq' : (n :: q == p) = false := by simpa using hq
          simp [List.lookup_append, List.lookup_cons, hq, hq']

theorem lookup_filter_ne {p : Place} (q : Place) : ∀ es : List (Place × Entry),
    (es.filter fun x => x.1 ≠ p).lookup q = if q = p then none else es.lookup q
  | [] => by simp
  | (r, d) :: es => by
      have ih := lookup_filter_ne (p := p) q es
      by_cases hr : r = p
      · subst hr
        by_cases hq : q = r
        · subst hq
          simpa using ih
        · have hq' : (q == r) = false := by simpa using hq
          simpa [List.lookup_cons, hq, hq'] using ih
      · by_cases hq : q = r
        · subst hq
          simp [hr]
        · have hq' : (q == r) = false := by simpa using hq
          simpa [List.lookup_cons, hr, hq'] using ih

/-- **A cleared place is empty, and all others are as before.** -/
theorem get?_erase (tree : FileTree) {p : Place} (hp : p ≠ []) (q : Place) :
    (tree.erase p).get? q = if q = p then none else tree.get? q := by
  cases q with
  | nil => simp [get?, Ne.symm hp]
  | cons n q => exact lookup_filter_ne _ _

/-- **What was put at a free place can be taken away without a trace.** -/
theorem erase_insert (tree : FileTree) {p : Place} (e : Entry)
    (h : tree.entries.lookup p = none) : (tree.insert p e).erase p = tree := by
  have hfilter : tree.entries.filter (fun x => x.1 ≠ p) = tree.entries :=
    List.filter_eq_self.2 fun x hx => by simpa using ne_of_lookup_eq_none h x hx
  rw [insert, if_neg (by simp [h]), erase, List.filter_append, hfilter]
  simp

end FileTree

end ModuleRoster
