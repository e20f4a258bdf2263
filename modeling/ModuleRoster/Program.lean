import ModuleRoster.AtomicWrite
import ModuleRoster.CommandLine.Guidance
import ModuleRoster.CommandLine.Request
import ModuleRoster.Roster.Listing
import ModuleRoster.Stopwatch

/-!
# Program — the command that lists the public modules

A run reads its command line, makes the listing, which is timed, and prints it or writes it to a
file.  `Program.plan` says what it has to do, and `Plan.carryOut` does it to a tree.  Only a run
that is asked to list anything looks at the machine or touches the tree.
-/

namespace ModuleRoster

/-- **What a run finds on its machine.** -/
structure Machine where
  host : Host
  pid : Int
  clock : Clock

/-- **What a run leaves behind**: its exit code, what it wrote to the two streams, and the failure
that ended it. -/
structure Outcome where
  exit : Nat
  out : Text
  err : Text
  failure : Option Failure
  deriving DecidableEq

/-- **What a run has to do**, once its listing is made. -/
inductive Plan
  /-- The outcome is settled. -/
  | answer (outcome : Outcome)
  /-- A file is to be replaced first, at the reading of the clock with this number.  There is an
  outcome for the file that is written and one, without the failure, for that which is not. -/
  | replace (w : AtomicWrite) (reading : Nat) (written unwritten : Outcome)

/-- **Carry out a plan** on a tree. -/
def Plan.carryOut (m : Machine) (tree : FileTree) : Plan → Outcome × FileTree
  | .answer outcome => (outcome, tree)
  | .replace w reading written unwritten =>
      match w.run m.pid (m.clock.read reading) tree with
      | (.error failure, tree) => ({ unwritten with failure := some failure }, tree)
      | (.ok (), tree) => (written, tree)

/-- How the program is started, which decides the name it gives itself. -/
inductive Invocation
  | command
  | script
  deriving DecidableEq, Repr

/-- The name that the program gives itself. -/
def Invocation.name : Invocation → Text
  | .command => "stdmods-list".toList
  | .script => "stdlib_modules.py".toList

namespace Program

/-- Make the listing as it is written; the clock is not read. -/
def makeList (host : Host) (i : Nat) : Trace Failure Text :=
  let (result, log) := listPublic host none
  ⟨result.map Text.unlines, log, i⟩

/-- Make the listing and time it, from the first reading of the clock on. -/
def timedList (m : Machine) : Trace Failure Text :=
  timed m.clock "list_public_modules".toList (makeList m.host) 0

/-- The log as it stands on the error stream. -/
def logText (verbose : Bool) (log : List LogEntry) : Text :=
  if verbose then log.flatMap fun e => e.line ++ ['\n'] else []

/-- **What is to be done to list the public modules**: print the list, or write it to the output
path if that is not empty.  It is written in UTF-8, which every system has. -/
def listPlan (settings : Settings) (m : Machine) : Plan :=
  let t := timedList m
  let shown := logText settings.verbose
  match t.result with
  | .error failure => .answer ⟨1, [], shown t.log, some failure⟩
  | .ok text =>
      match settings.output.getD [] with
      | [] => .answer ⟨0, text, shown t.log, none⟩
      | path =>
          .replace ⟨path, text, "utf-8".toList⟩ t.next
            ⟨0, [], shown (t.log ++ [.wrote path]), none⟩ ⟨1, [], shown t.log, none⟩

/-- **What a run has to do.** -/
def plan (invocation : Invocation) (words : List Text) (m : Machine) : Plan :=
  match Request.ofWords words with
  | .error misuse => .answer ⟨2, [], misuse.complaint invocation.name, none⟩
  | .ok .help => .answer ⟨0, helpText invocation.name, [], none⟩
  | .ok (.list settings) => listPlan settings m

/-- List the public modules. -/
def list (settings : Settings) (m : Machine) (tree : FileTree) : Outcome × FileTree :=
  (listPlan settings m).carryOut m tree

/-- **A run of the program.** -/
def run (invocation : Invocation) (words : List Text) (m : Machine) (tree : FileTree) :
    Outcome × FileTree :=
  (plan invocation words m).carryOut m tree

end Program

end ModuleRoster
