import ModuleRoster.Proofs.Roster.Listing

/-!
# Proofs/Roster/DefaultSet — imports that are looked up in no given set

Without a given set the machine is asked for its public names, but a relative import is answered
before that.  So a machine without names is found out just if one of the imports is not relative
(`areBundledImports_noHost`, `areBundledImports_of_relative`), and a machine with names answers all
of them (`areBundledImports_host`).  An empty set that is given stays empty, and the machine is not
asked at all.
-/

namespace ModuleRoster

variable {host : Host} {given : Option ModuleSet} {registry : Registry} {dotted : Text}
  {queries : List Text}

/-! ## One import -/

/-- **A relative import is never held**, and nobody is asked about it. -/
theorem isBundledImport_of_relative (h : dotted.head? = some '.') :
    isBundledImport host given dotted = .ok false := by
  simp [isBundledImport, Import.isRelative, Import.separator, h]

/-- **Any other import needs the public names of the machine.** -/
theorem isBundledImport_noHost (h : dotted.head? ≠ some '.') :
    isBundledImport none none dotted = .error .noRegistry := by
  simp [isBundledImport, Import.isRelative, Import.separator, h, ModuleSet.current, listPublic,
    Host.registryOr, Except.map]

/-- **What a machine holds**: the imports whose root is one of its public names. -/
theorem isBundledImport_default_iff : isBundledImport host none dotted = .ok true ↔
    ∃ registry, host = some registry ∧ dotted.head? ≠ some '.' ∧ Import.root dotted ∈ registry ∧
      (Import.root dotted).head? ≠ some '_' := by
  cases host with
  | some registry => simp [isBundledImport_host, holdsImport_listing_iff]
  | none =>
    by_cases relative : dotted.head? = some '.'
    · simp [isBundledImport_of_relative relative]
    · simp [isBundledImport_noHost relative]

/-! ## Several imports -/

/-- **If all imports have an answer**, these are the answers. -/
theorem areBundledImports_of_forall {answer : Text → Bool} :
    ∀ {queries : List Text},
      (∀ dotted ∈ queries, isBundledImport host given dotted = .ok (answer dotted)) →
      areBundledImports host given queries = .ok (queries.map answer)
  | [], _ => rfl
  | dotted :: queries, h => by
      obtain ⟨hfirst, hrest⟩ := List.forall_mem_cons.1 h
      rw [areBundledImports, hfirst, areBundledImports_of_forall hrest]
      rfl

theorem areBundledImports_host : areBundledImports (some registry) none queries
    = .ok (queries.map (ModuleSet.ofList registry.listing).holdsImport) :=
  areBundledImports_of_forall fun _ _ => isBundledImport_host

theorem areBundledImports_of_relative (h : ∀ dotted ∈ queries, dotted.head? = some '.') :
    areBundledImports host given queries = .ok (queries.map fun _ => false) :=
  areBundledImports_of_forall fun dotted hmem => isBundledImport_of_relative (h dotted hmem)

/-- **The first import that is not relative fails** if the machine has no names. -/
theorem areBundledImports_noHost : ∀ {queries : List Text},
    (∃ dotted ∈ queries, dotted.head? ≠ some '.') →
      areBundledImports none none queries = .error .noRegistry
  | [], h => by simp at h
  | dotted :: queries, h => by
      rw [areBundledImports]
      by_cases relative : dotted.head? = some '.'
      · obtain ⟨other, hmem, hother⟩ := h
        have hrest : other ∈ queries :=
          (List.mem_cons.1 hmem).resolve_left fun heq => hother (heq ▸ relative)
        rw [isBundledImport_of_relative relative, areBundledImports_noHost ⟨other, hrest, hother⟩]
        rfl
      · rw [isBundledImport_noHost relative]

/-- **Imports fail without a given set** just if the machine has no names and one of them is not
relative. -/
theorem areBundledImports_eq_error_iff {failure : Failure} :
    areBundledImports host none queries = .error failure ↔
      failure = .noRegistry ∧ host = none ∧ ∃ dotted ∈ queries, dotted.head? ≠ some '.' := by
  cases host with
  | some registry => simp [areBundledImports_host]
  | none =>
    by_cases absolute : ∃ dotted ∈ queries, dotted.head? ≠ some '.'
    · simp [areBundledImports_noHost absolute, absolute, eq_comm]
    · have relative : ∀ dotted ∈ queries, dotted.head? = some '.' := by simpa using absolute
      simp [areBundledImports_of_relative relative, absolute]

/-! ## The default set -/

/-- **The set of the machine is the default**, and it is read only when it is needed.  Imports fail
just if the machine has no names and one of them is not relative.  Otherwise they are answered as
from the set of the machine; if it has none, then as from any set.  An import with a private root is
never held.  In an empty set nothing is held, on every machine. -/
theorem areBundledImports_default (host : Host) (queries : List Text) :
    (∀ failure, areBundledImports host none queries = .error failure ↔
      failure = .noRegistry ∧ host = none ∧ ∃ dotted ∈ queries, dotted.head? ≠ some '.') ∧
    (¬(host = none ∧ ∃ dotted ∈ queries, dotted.head? ≠ some '.') →
      ∃ answer : Text → Bool, areBundledImports host none queries = .ok (queries.map answer) ∧
        ∀ dotted ∈ queries, ∀ s, ModuleSet.current host = .ok s ∨ host = none →
          ∀ other, isBundledImport other (some s) dotted = .ok (answer dotted)) ∧
    (∀ dotted, (Import.root dotted).head? = some '_' →
      isBundledImport host none dotted ≠ .ok true) ∧
    ∀ other, areBundledImports other (some .empty) queries = .ok (queries.map fun _ => false) := by
  refine ⟨fun _ => areBundledImports_eq_error_iff, fun available => ?_, fun dotted hprivate h => ?_,
    fun other => ?_⟩
  · cases host with
    | some registry =>
      refine ⟨_, areBundledImports_host, fun dotted _ s hs other => ?_⟩
      rcases hs with hs | hs
      · cases hs
        exact isBundledImport_given
      · cases hs
    | none =>
      have relative : ∀ dotted ∈ queries, dotted.head? = some '.' := by simpa using available
      exact ⟨_, areBundledImports_of_relative relative,
        fun dotted hmem _ _ _ => isBundledImport_of_relative (relative dotted hmem)⟩
  · obtain ⟨_, -, -, -, hpublic⟩ := isBundledImport_default_iff.1 h
    exact hpublic hprivate
  · refine areBundledImports_of_forall fun dotted _ => isBundledImport_given.trans ?_
    simp [ModuleSet.holdsImport, ModuleSet.empty]

/-- Imports of all kinds on a machine with names, and relative ones on a machine without. -/
theorem areBundledImports_default_relative :
    let host : Host := some ["os".toList, "_io".toList]
    let queries := ["os.path".toList, "_io.x".toList, ".os".toList]
    (∃ answer : Text → Bool, areBundledImports host none queries = .ok (queries.map answer) ∧
      isBundledImport none (some (.ofList ["os".toList])) "os.path".toList
        = .ok (answer "os.path".toList)) ∧
      isBundledImport host none "_io.x".toList ≠ .ok true ∧
      ∃ answer : Text → Bool,
        areBundledImports none none [".os".toList] = .ok [answer ".os".toList] ∧
        isBundledImport none (some (.ofList ["os".toList])) ".os".toList
          = .ok (answer ".os".toList) := by
  intro host queries
  obtain ⟨-, answers, noPrivate, -⟩ := areBundledImports_default host queries
  obtain ⟨-, answers', -, -⟩ := areBundledImports_default none [".os".toList]
  refine ⟨?_, noPrivate _ rfl, ?_⟩
  · obtain ⟨answer, hanswers, hgiven⟩ := answers (by simp [host])
    exact ⟨answer, hanswers, hgiven "os.path".toList (by simp [queries]) _ (Or.inl rfl) none⟩
  · obtain ⟨answer, hanswers, hgiven⟩ := answers' (by simp)
    exact ⟨answer, hanswers, hgiven ".os".toList (by simp) _ (Or.inr rfl) none⟩

end ModuleRoster
