import Mathlib.Tactic.DeprecateTo
import ModuleRoster.Program
import ModuleRoster.Roster.Bundled

/-!
# Main — the program on a real machine

The outer layer finds out what the machine holds, asks `Program.plan` what is to be done, and does
on the disk what `Plan.carryOut` does to a tree.  The clock of the standard library, `Std.Time`,
comes with the first of the modules above.
-/

namespace ModuleRoster.Main

/-- The time in seconds since 1970. -/
def now : IO Binary64 := do
  let time ← Std.Time.Timestamp.now
  pure (.ofBits (Float.ofInt time.toNanosecondsSinceUnixEpoch.val / 1e9).toBits)

/-- The number of this process, as the system shows it. -/
def processId : IO Int := do
  let path ← IO.FS.realPath "/proc/self"
  pure (((path.fileName.bind String.toNat?).getD 1 : Nat) : Int)

/-- **The machine**, with the two readings of its clock between which the listing is made.  It is
made here for the time that this takes; a plan makes it again. -/
def machine : IO Machine := do
  let host := some Registry.bundled
  let start ← now
  let _ ← IO.lazyPure fun _ => (Program.makeList host 0).result
  let stop ← now
  pure ⟨host, ← processId, ⟨[start, stop]⟩⟩

/-- Does a path lead to anything? -/
def leadsTo (path : String) : IO Bool := do
  try
    discard (IO.FS.realPath path)
    pure true
  catch _ => pure false

/-- **Replace a file on the disk**, as `AtomicWrite.runWith` does in a tree: the temporary file is
made before the text is encoded, and if tidying up fails, its own failure is the one that counts.
The runtime can flush a file but has no call to sync it. -/
def replaceFile (w : AtomicWrite) (temporary : String) : IO Unit := do
  try
    let file ← IO.FS.Handle.mk temporary .write
    let bytes ← IO.ofExcept (w.content.mapError fun f => String.ofList f.message)
    file.write ⟨bytes.toArray⟩
    file.flush
    IO.FS.rename temporary (String.ofList w.path)
  catch e =>
    if ← leadsTo temporary then
      IO.FS.removeFile temporary
    throw e

/-- Show an outcome on the two streams. -/
def report (o : Outcome) : IO UInt32 := do
  let err ← IO.getStderr
  let out ← IO.getStdout
  err.putStr (String.ofList o.err)
  out.putStr (String.ofList o.out)
  if let some failure := o.failure then
    err.putStr (String.ofList failure.message ++ "\n")
  out.flush
  err.flush
  pure (.ofNat o.exit)

/-- **Carry out a plan** on the disk.  The time for the temporary name is read when it is needed,
and a failure of the system is shown in the words of the system. -/
def carryOut (pid : Int) : Plan → IO UInt32
  | .answer outcome => report outcome
  | .replace w _ written unwritten => do
      match temporaryName w.path pid (← now) with
      | .error cause => report { unwritten with failure := some (.badClock cause) }
      | .ok temporary =>
          match ← (replaceFile w (String.ofList temporary)).toBaseIO with
          | .ok () => report written
          | .error e =>
              let exit ← report unwritten
              (← IO.getStderr).putStr (toString e ++ "\n")
              pure exit

end ModuleRoster.Main

open ModuleRoster in
/-- Read the command line and do what it asks for. -/
def main (words : List String) : IO UInt32 := do
  let m ← Main.machine
  Main.carryOut m.pid (Program.plan .command (words.map String.toList) m)
