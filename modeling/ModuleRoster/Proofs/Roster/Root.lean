import ModuleRoster.Proofs.Roster.Listing

/-!
# Proofs/Roster/Root — an import is looked up by its root

What stands behind the first dot of an import does not change its root (`Import.root_append_dot`),
so a module in a package has the answer of the package.  A root has no dot in it
(`Import.dot_notMem_root`), so the names of a set that have one are never found.  An import that
begins with a dot has no root to be looked up, and is in no set.
-/

namespace ModuleRoster

variable {s : ModuleSet} {m n t dotted : Text}

/-! ## Roots -/

namespace Import

theorem root_append_dot : ∀ m t : Text, root (m ++ '.' :: t) = root m
  | [], _ => rfl
  | c :: m, t => by
      have ih := root_append_dot m t
      unfold root at ih ⊢
      rw [List.cons_append, List.takeWhile_cons, List.takeWhile_cons, ih]

/-- **A root has no dot.** -/
theorem dot_notMem_root (dotted : Text) : '.' ∉ root dotted := by
  intro h
  have hall := List.all_eq_true.1 (List.all_takeWhile : (root dotted).all (· != separator) = true)
  simpa [separator] using hall '.' h

/-- A name without a dot is its own root. -/
theorem root_of_noDot (h : '.' ∉ n) : root n = n := by
  refine List.takeWhile_eq_self_iff.2 fun c hc => ?_
  simpa [separator] using ne_of_mem_of_not_mem hc h

theorem isRelative_append (hm : m ≠ []) : isRelative (m ++ t) = isRelative m := by
  rw [isRelative, List.head?_append_of_ne_nil m hm, isRelative]

end Import

/-! ## Sets -/

namespace ModuleSet

/-- The set without the names that have a dot in them. -/
def undotted (s : ModuleSet) : ModuleSet :=
  ⟨s.names.filter fun n => !n.contains '.', s.ascending.filter _⟩

theorem mem_undotted : n ∈ s.undotted ↔ n ∈ s ∧ '.' ∉ n := by
  refine List.mem_filter.trans (and_congr_right fun _ => ?_)
  simp

/-- **A name in a package has the answer of the package**, if that has a name at all. -/
theorem holdsImport_append_dot :
    s.holdsImport (m ++ '.' :: t) = true ↔ m ≠ [] ∧ s.holdsImport m = true := by
  rcases eq_or_ne m [] with rfl | hm
  · exact iff_of_false (by simp [holdsImport, Import.isRelative, Import.separator]) (by simp)
  · rw [holdsImport, Import.isRelative_append hm, Import.root_append_dot, ← holdsImport]
    exact (and_iff_right hm).symm

/-- **So has a whole chain of names.** -/
theorem holdsImport_join (hm : m ≠ []) (rest : List Text) :
    s.holdsImport (Text.join ['.'] (m :: rest)) = s.holdsImport m := by
  cases rest with
  | nil => rfl
  | cons t rest =>
    rw [Text.join, List.append_assoc, List.singleton_append, Bool.eq_iff_iff,
      holdsImport_append_dot]
    exact and_iff_right hm

/-- **A name without a dot is looked up as it is.** -/
theorem holdsImport_of_noDot (h : '.' ∉ n) : s.holdsImport n = true ↔ n ∈ s := by
  have absolute : Import.isRelative n = false := by
    cases n with
    | nil => rfl
    | cons c n =>
      have hc : c ≠ '.' := ne_of_mem_of_not_mem (List.mem_cons_self) h
      simp [Import.isRelative, Import.separator, hc]
  simp [holdsImport, absolute, Import.root_of_noDot h]

theorem holdsImport_undotted : s.undotted.holdsImport dotted = s.holdsImport dotted := by
  have hroot : Import.root dotted ∈ s.undotted ↔ Import.root dotted ∈ s :=
    mem_undotted.trans (and_iff_left (Import.dot_notMem_root dotted))
  simp only [holdsImport, hroot]

end ModuleSet

/-! ## Answers -/

/-- **Only the root of an import counts.**  In a given set every import has an answer, whatever the
machine.  A name in a package has the answer of the package and so has a chain of names; what begins
with a dot is never held; a name without a dot is held just if it is in the set; and the names in
the set that have a dot make no difference. -/
theorem isBundledImport_byRoot (s : ModuleSet) :
    ∃ answer : Text → Bool,
      (∀ host dotted, isBundledImport host (some s) dotted = .ok (answer dotted)) ∧
      (∀ m t, answer (m ++ '.' :: t) = true ↔ m ≠ [] ∧ answer m = true) ∧
      (∀ m rest, m ≠ [] → answer (Text.join ['.'] (m :: rest)) = answer m) ∧
      (∀ t, answer ('.' :: t) = false) ∧
      (∀ n, '.' ∉ n → (answer n = true ↔ n ∈ s)) ∧
      ∀ host dotted, isBundledImport host (some s.undotted) dotted = .ok (answer dotted) := by
  refine ⟨s.holdsImport, fun _ _ => isBundledImport_given, fun _ _ => s.holdsImport_append_dot,
    fun _ rest hm => s.holdsImport_join hm rest, fun t => ?_, fun _ => s.holdsImport_of_noDot,
    fun _ _ => ?_⟩
  · simp [ModuleSet.holdsImport, Import.isRelative, Import.separator]
  · rw [isBundledImport_given, ModuleSet.holdsImport_undotted]

/-- A set with the empty name, a relative name and names with dots in them. -/
theorem isBundledImport_byRoot_relative :
    let s : ModuleSet := .ofList [[], ".a".toList, "os".toList, "os..path.".toList, "re.x".toList]
    isBundledImport none (some s) "os..path.".toList = .ok true ∧
      isBundledImport none (some s) ".a".toList = .ok false ∧
      isBundledImport none (some s) [] = .ok true ∧
      isBundledImport none (some s.undotted) "os..path.".toList = .ok true := by
  intro s
  obtain ⟨answer, hanswer, -, hchain, hrelative, hname, hundotted⟩ := isBundledImport_byRoot s
  have hos : answer "os".toList = true := (hname "os".toList (by decide)).2 (by decide)
  have hpath : answer "os..path.".toList = true :=
    (hchain "os".toList [[], "path".toList, []] (by decide)).trans hos
  have hempty : answer [] = true := (hname [] (by decide)).2 (by decide)
  refine ⟨?_, ?_, ?_, ?_⟩
  · rw [hanswer, hpath]
  · exact (hanswer none _).trans (congrArg Except.ok (hrelative ['a']))
  · rw [hanswer, hempty]
  · rw [hundotted, hpath]

end ModuleRoster
