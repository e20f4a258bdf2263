import ModuleRoster.Proofs.Roster.Parse
import ModuleRoster.Roster.Import

/-!
# Proofs/Roster/Listing — the public names of a registry, and the imports they answer

The listing holds the public names of the registry (`mem_listing`).  So the text that is written of
it is read as the set of the machine just if the public names are clean
(`parse_listText_eq_iff`), and an import is looked up in that set whichever way it was come by
(`isBundledImport_given`, `isBundledImport_host`).
-/

namespace ModuleRoster

variable {registry : Registry} {n dotted : Text}

namespace Registry

/-- **The listing has the public names**, and no others. -/
theorem mem_listing : n ∈ registry.listing ↔ n ∈ registry ∧ isPublic n = true := by
  rw [listing, (Text.perm_sort _).mem_iff, List.mem_filter]

/-- **What is written of a registry is read as the names in its public names.** -/
theorem parse_listText : ModuleSet.parse registry.listText
    = .unionOf ((registry.filter isPublic).map .parse) := by
  refine (ModuleSet.parse_unlines _).trans (ModuleSet.ext_mem fun n => ?_)
  simp [ModuleSet.mem_unionOf, mem_listing]

/-- **The written registry is read as its public names just if they are clean.** -/
theorem parse_listText_eq_iff : ModuleSet.parse registry.listText = .ofList registry.listing ↔
    ∀ n ∈ registry, isPublic n = true → Text.IsClean n := by
  rw [listText, ModuleSet.parse_unlines_eq_ofList_iff]
  simp only [mem_listing, and_imp]

end Registry

/-- The set of a machine with a registry. -/
theorem ModuleSet.current_of_registry :
    ModuleSet.current (some registry) = .ok (.ofList registry.listing) := rfl

/-! ## Imports -/

/-- **An import is looked up in the given set**, also if it is relative and nothing is looked up. -/
theorem isBundledImport_given {host : Host} {s : ModuleSet} :
    isBundledImport host (some s) dotted = .ok (s.holdsImport dotted) := by
  unfold isBundledImport ModuleSet.holdsImport
  split
  next relative => simp [relative]
  next => rfl

/-- **Without a given set it is looked up among the public names of the machine.** -/
theorem isBundledImport_host : isBundledImport (some registry) none dotted
    = .ok ((ModuleSet.ofList registry.listing).holdsImport dotted) := by
  unfold isBundledImport ModuleSet.holdsImport
  split
  next relative => simp [relative]
  next => rfl

/-- **The public names hold an import** if it is not relative and its root is a public name. -/
theorem holdsImport_listing_iff : (ModuleSet.ofList registry.listing).holdsImport dotted = true ↔
    dotted.head? ≠ some '.' ∧ Import.root dotted ∈ registry ∧
      (Import.root dotted).head? ≠ some '_' := by
  simp [ModuleSet.holdsImport, Import.isRelative, Import.separator, Registry.mem_listing, isPublic]

/-- The order of a registry, and how often a name is in it, do not matter. -/
theorem holdsImport_listing_congr {registry' : Registry}
    (same : ∀ n, n ∈ registry' ↔ n ∈ registry) :
    (ModuleSet.ofList registry'.listing).holdsImport dotted
      = (ModuleSet.ofList registry.listing).holdsImport dotted := by
  rw [Bool.eq_iff_iff, holdsImport_listing_iff, holdsImport_listing_iff, same]

end ModuleRoster
