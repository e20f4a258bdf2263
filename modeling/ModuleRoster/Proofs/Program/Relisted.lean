import ModuleRoster.Proofs.Program.WrittenList
import ModuleRoster.Proofs.Roster.Relisted

/-!
# Proofs/Program/Relisted — a list that was written, loaded and written again

The listing of a set that was read from a list is that list, whether the list is any text
(`ModuleSet.exists_isWrittenAs_parse`) or the file that a run has written (`written_of_load`).  For
a file the set has first to be loaded, which the path can prevent.
-/

namespace ModuleRoster.Program

open FileTree

variable {invocation : Invocation} {words : List Text} {settings : Settings} {path : Text}
  {m : Machine} {tree after : FileTree} {outcome : Outcome} {registry : Registry}

section

variable (host : m.host = some registry)
  (accepted : Request.ofWords words = .ok (.list settings))
  (houtput : settings.output = some path) (hpath : path ≠ [])
  (h : run invocation words m tree = (outcome, after)) (hexit : outcome.exit = 0)
include host accepted houtput hpath h hexit

/-- A run with an output path that ends well has written the listing. -/
theorem written_of_run :
    AtomicWrite.run ⟨path, registry.listText, "utf-8".toList⟩ m.pid (m.clock.read 2) tree
      = (.ok (), after) := by
  rw [run_of_list accepted] at h
  obtain ⟨registry', host', hrun⟩ := list_output_ok houtput hpath h hexit
  cases host'.symm.trans host
  exact hrun

/-- **The set that is loaded from the written file is written as that file.** -/
theorem written_of_load (nodup : (registry.filter isPublic).Nodup)
    (clean : ∀ n ∈ registry, isPublic n = true → Text.IsClean n) {s : ModuleSet}
    (hload : ModuleSet.load after path = .ok s) :
    after.read path = .ok (Utf8.encode registry.listText) ∧
      s.IsWrittenAs registry.listText := by
  have hrun := written_of_run host accepted houtput hpath h hexit
  obtain ⟨hread, rfl⟩ := load_eq_of_written hrun hload
  exact ⟨hread, ModuleSet.isWrittenAs_parse_listText nodup clean⟩

end

/-- **A list that is loaded and written again stays the same.**  The set of any text is written as a
list of its public names, and the set of this list is written as the list.  So is the set that is
loaded from the file a run has written, if its public names are clean and none is there twice.  The
file can be loaded just if its path does not go through its own entry, which is known if nothing
stood at the temporary name. -/
theorem relisting_isStable :
    (∀ t, ∃ g, (ModuleSet.parse t).IsWrittenAs g ∧
      (∀ n, n ∈ ModuleSet.parse g ↔ n ∈ ModuleSet.parse t ∧ n.head? ≠ some '_') ∧
      (ModuleSet.parse g).IsWrittenAs g) ∧
    ∀ (m : Machine) (registry : Registry), m.host = some registry →
      (registry.filter isPublic).Nodup →
      (∀ n ∈ registry, isPublic n = true → Text.IsClean n) →
      ∀ invocation words settings path tree outcome after,
        Request.ofWords words = .ok (.list settings) → settings.output = some path → path ≠ [] →
        run invocation words m tree = (outcome, after) → outcome.exit = 0 →
          (∀ s, ModuleSet.load after path = .ok s →
            after.read path = .ok (Utf8.encode registry.listText) ∧
              s.IsWrittenAs registry.listText) ∧
          (TemporaryIsVacant path m.pid (m.clock.read 2) tree →
            ((∃ s, ModuleSet.load after path = .ok s) ↔ tree.AvoidsItself path)) := by
  refine ⟨ModuleSet.exists_isWrittenAs_parse, ?_⟩
  intro m registry host nodup clean invocation words settings path tree outcome after accepted
    houtput hpath h hexit
  have hrun := written_of_run host accepted houtput hpath h hexit
  exact ⟨fun _ => written_of_load host accepted houtput hpath h hexit nodup clean,
    fun vacant => exists_load_iff_of_written vacant hrun⟩

/-- Two names, written through a link to a directory. -/
theorem relisting_isStable_link :
    let m : Machine := ⟨some ["re".toList, "_io".toList, "os".toList], 7, ⟨[]⟩⟩
    let words := ["-vo".toList, "b".toList]
    ∃ outcome after s, run .command words m linkedTree = (outcome, after) ∧ outcome.exit = 0 ∧
      ModuleSet.load after "b".toList = .ok s ∧ s.IsWrittenAs "os\nre".toList := by
  intro m words
  have vacant : TemporaryIsVacant "b".toList 7 (Clock.read ⟨[]⟩ 2) linkedTree := by decide +kernel
  have avoids : linkedTree.AvoidsItself "b".toList := by decide +kernel
  have exits : (run .command ["-vo".toList, "b".toList]
      ⟨some ["re".toList, "_io".toList, "os".toList], 7, ⟨[]⟩⟩ linkedTree).1.exit = 0 := by
    decide +kernel
  rcases hrun : run .command words m linkedTree with ⟨outcome, after⟩
  have hexit : outcome.exit = 0 := by
    rw [← exits, hrun]
  have accepted : Request.ofWords words = .ok (.list ⟨true, some "b".toList⟩) := rfl
  obtain ⟨-, stable⟩ := relisting_isStable
  obtain ⟨same, loads⟩ := stable m ["re".toList, "_io".toList, "os".toList] rfl (by decide)
    (by decide) .command words ⟨true, some "b".toList⟩ "b".toList linkedTree outcome after accepted
    rfl (by decide) hrun hexit
  obtain ⟨s, hload⟩ := (loads vacant).2 avoids
  exact ⟨outcome, after, s, rfl, hexit, hload, (same s hload).2⟩

/-- **At a path that goes through its own entry** there is no list to be loaded and written
again. -/
theorem not_relisting_isStable_through_itself :
    let m : Machine := ⟨some ["os".toList], 7, ⟨[]⟩⟩
    (["os".toList].filter isPublic).Nodup ∧
      (∀ n ∈ ["os".toList], isPublic n = true → Text.IsClean n) ∧
      TemporaryIsVacant "b/../b".toList m.pid (m.clock.read 2) linkedTree ∧
      (run .command ["-o".toList, "b/../b".toList] m linkedTree).1.exit = 0 ∧
      (ModuleSet.load (run .command ["-o".toList, "b/../b".toList] m linkedTree).2
        "b/../b".toList).isOk = false := by
  refine ⟨by decide, by decide, by decide +kernel, by decide +kernel, by decide +kernel⟩

end ModuleRoster.Program
