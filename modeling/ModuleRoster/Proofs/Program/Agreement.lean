import ModuleRoster.Proofs.Program.WrittenList

/-!
# Proofs/Program/Agreement — one answer for an import, whichever set it is looked up in

The public names of the machine can be asked directly, through the list that a run prints, or
through the list that it writes to a file.  If they are clean, all three sets are one set
(`parse_out`, `load_of_clean`), so an import has the same answer in each of them
(`isBundledImport_agrees`).
-/

namespace ModuleRoster.Program

open FileTree

variable {invocation : Invocation} {m : Machine} {tree after : FileTree} {outcome : Outcome}
  {registry : Registry} {path : Text} (host : m.host = some registry)
  (clean : ∀ n ∈ registry, isPublic n = true → Text.IsClean n)
include host clean

/-- **The printed list is read as the set of the machine.** -/
theorem parse_out (h : run invocation [] m tree = (outcome, after)) :
    outcome.exit = 0 ∧ ModuleSet.parse outcome.out = .ofList registry.listing := by
  cases h.symm.trans (run_print invocation tree host)
  exact ⟨rfl, Registry.parse_listText_eq_iff.2 clean⟩

/-- **The written list is loaded as the set of the machine**, if it is loaded. -/
theorem load_of_clean (hpath : path ≠ [])
    (h : run invocation ["-o".toList, path] m tree = (outcome, after)) (hexit : outcome.exit = 0)
    {s : ModuleSet} (hload : ModuleSet.load after path = .ok s) : s = .ofList registry.listing :=
  (load_eq_of_output host hpath h hexit hload).trans (Registry.parse_listText_eq_iff.2 clean)

/-- **One answer for an import.**  It is looked up among the public names of the machine, in the
printed list and in the written one, and the answer is whether it has a root that is a public name.
The written list can be loaded just if its path does not go through its own entry, which is known if
nothing stood at the temporary name. -/
theorem isBundledImport_agrees (dotted : Text) :
    ∃ answer : Bool,
      (answer = true ↔ dotted.head? ≠ some '.' ∧ Import.root dotted ∈ registry ∧
        (Import.root dotted).head? ≠ some '_') ∧
      isBundledImport m.host none dotted = .ok answer ∧
      (∀ invocation tree outcome after, run invocation [] m tree = (outcome, after) →
        outcome.exit = 0 ∧
          ∀ other, isBundledImport other (some (.parse outcome.out)) dotted = .ok answer) ∧
      (∀ invocation path tree outcome after, path ≠ [] →
        run invocation ["-o".toList, path] m tree = (outcome, after) → outcome.exit = 0 →
          (∀ other s, ModuleSet.load after path = .ok s →
            isBundledImport other (some s) dotted = .ok answer) ∧
          (TemporaryIsVacant path m.pid (m.clock.read 2) tree →
            ((∃ s, ModuleSet.load after path = .ok s) ↔ tree.AvoidsItself path))) ∧
      ∀ registry' : Registry, (∀ n, n ∈ registry' ↔ n ∈ registry) →
        isBundledImport (some registry') none dotted = .ok answer := by
  refine ⟨(ModuleSet.ofList registry.listing).holdsImport dotted, holdsImport_listing_iff,
    host ▸ isBundledImport_host, ?_, ?_, ?_⟩
  · intro _ _ outcome _ h
    obtain ⟨hexit, hout⟩ := parse_out host clean h
    exact ⟨hexit, fun _ => hout ▸ isBundledImport_given⟩
  · intro _ path tree _ after hpath h hexit
    refine ⟨fun _ s hload => ?_, fun vacant => ?_⟩
    · rw [load_of_clean host clean hpath h hexit hload, isBundledImport_given]
    · obtain ⟨_, -, hrun⟩ := run_output_ok hpath h hexit
      exact exists_load_iff_of_written vacant hrun
  · intro registry' same
    rw [isBundledImport_host, holdsImport_listing_congr same]

omit host clean

/-- A module in a package, looked up in a list that is written through a link to a directory. -/
theorem isBundledImport_agrees_link :
    let m : Machine := ⟨some ["re".toList, "os".toList, "_io".toList, "os".toList], 7, ⟨[]⟩⟩
    ∃ outcome after s, run .command ["-o".toList, "b".toList] m linkedTree = (outcome, after) ∧
      outcome.exit = 0 ∧ ModuleSet.load after "b".toList = .ok s ∧
      isBundledImport none (some s) "os.path".toList = .ok true := by
  intro m
  have vacant : TemporaryIsVacant "b".toList 7 (Clock.read ⟨[]⟩ 2) linkedTree := by decide +kernel
  have avoids : linkedTree.AvoidsItself "b".toList := by decide +kernel
  have exits : (run .command ["-o".toList, "b".toList]
      ⟨some ["re".toList, "os".toList, "_io".toList, "os".toList], 7, ⟨[]⟩⟩ linkedTree).1.exit
        = 0 := by
    decide +kernel
  rcases hrun : run .command ["-o".toList, "b".toList] m linkedTree with ⟨outcome, after⟩
  have hexit : outcome.exit = 0 := by
    rw [← exits, hrun]
  have host : m.host = some ["re".toList, "os".toList, "_io".toList, "os".toList] := rfl
  obtain ⟨answer, hanswer, _, _, written, _⟩ :=
    isBundledImport_agrees host (by decide) "os.path".toList
  obtain rfl := hanswer.2 (by decide)
  obtain ⟨same, loads⟩ :=
    written .command "b".toList linkedTree outcome after (by decide) hrun hexit
  obtain ⟨s, hload⟩ := (loads vacant).2 avoids
  exact ⟨outcome, after, s, rfl, hexit, hload, same none s hload⟩

/-- **At a path that goes through its own entry** there is no written list to look an import up
in. -/
theorem not_isBundledImport_agrees_through_itself :
    let m : Machine := ⟨some ["os".toList], 7, ⟨[]⟩⟩
    (∀ n ∈ ["os".toList], isPublic n = true → Text.IsClean n) ∧
      (run .command ["-o".toList, "b/../b".toList] m linkedTree).1.exit = 0 ∧
      isBundledImport m.host none "os".toList = .ok true ∧
      (ModuleSet.load (run .command ["-o".toList, "b/../b".toList] m linkedTree).2
        "b/../b".toList).isOk = false := by
  refine ⟨by decide, by decide +kernel, rfl, by decide +kernel⟩

end ModuleRoster.Program
