import ModuleRoster.AtomicWrite
import ModuleRoster.Proofs.Text.Numeral

/-!
# Proofs/AtomicWrite/NameParts — a temporary name tells what it was made of

A temporary name is a path, a process and a number of nanoseconds with hyphens between them
(`temporaryNameAt`).  A path may itself have hyphens and digits at its end, so the name is read from
behind: the nanoseconds with their sign (`temporaryNameAt_cut`), then the process, and what is left
is the path (`temporaryNameAt_unique`).  For this the process must have no sign; if the path is
known, it may have one.
-/

namespace ModuleRoster

variable {path path' : Text} {pid pid' ns ns' : Int}

/-- **The temporary name for a path** in a process, at a number of nanoseconds. -/
def temporaryNameAt (path : Text) (pid ns : Int) : Text :=
  path ++ '-' :: Text.ofInt pid ++ '-' :: Text.ofInt ns

/-- **The nanoseconds are read from behind**, with their sign. -/
theorem temporaryNameAt_cut (h : temporaryNameAt path pid ns = temporaryNameAt path' pid' ns') :
    path ++ '-' :: Text.ofInt pid = path' ++ '-' :: Text.ofInt pid' ∧ ns = ns' := by
  have hlast : ∀ (path : Text) (pid : Int),
      (path ++ '-' :: Text.ofInt pid).getLast? ≠ some '-' := by
    intro path pid
    rw [List.append_cons]
    exact Text.getLast?_append_ofInt _ pid
  exact Text.append_ofInt_inj (hlast path pid) (hlast path' pid') h

/-- **A temporary name tells its path, its process and its nanoseconds**, if the process is a
natural number; and it tells the process and the nanoseconds of a known path, whatever they are.  It
is never the path itself.  The clock gives the nanoseconds, and the name is made of nothing else. -/
theorem temporaryNameAt_unique :
    (∀ (path path' : Text) (pid pid' : Nat) (ns ns' : Int),
      temporaryNameAt path pid ns = temporaryNameAt path' pid' ns' ↔
        path = path' ∧ pid = pid' ∧ ns = ns') ∧
    (∀ (path : Text) (pid pid' ns ns' : Int),
      temporaryNameAt path pid ns = temporaryNameAt path pid' ns' ↔ pid = pid' ∧ ns = ns') ∧
    (∀ (path : Text) (pid ns : Int), temporaryNameAt path pid ns ≠ path) ∧
    ∀ (path : Text) (pid : Int) (now : Binary64), temporaryName path pid now
      = ((now.scale 1000000000).truncate).map (temporaryNameAt path pid) := by
  refine ⟨fun path path' pid pid' ns ns' => ⟨fun h => ?_, ?_⟩,
    fun path pid pid' ns ns' => ⟨fun h => ?_, ?_⟩, fun path pid ns h => ?_, fun _ _ _ => rfl⟩
  · obtain ⟨hfront, hns⟩ := temporaryNameAt_cut h
    obtain ⟨hpath, hpid⟩ := Text.append_ofInt_natCast_inj hfront
    exact ⟨hpath, hpid, hns⟩
  · rintro ⟨rfl, rfl, rfl⟩
    rfl
  · obtain ⟨hfront, hns⟩ := temporaryNameAt_cut h
    have hpid := (List.cons.inj (List.append_cancel_left hfront)).2
    exact ⟨Text.ofInt_injective hpid, hns⟩
  · rintro ⟨rfl, rfl⟩
    rfl
  · have hlength := congrArg List.length h
    simp only [temporaryNameAt, List.length_append, List.length_cons] at hlength
    omega

/-- With a signed process a hyphen can belong to the path as well. -/
example : temporaryNameAt "a".toList (-1) 0 = temporaryNameAt "a-".toList 1 0 := rfl

end ModuleRoster
