import ModuleRoster.Encoding.Codecs
import ModuleRoster.FileTree.Walk
import ModuleRoster.Number.Binary64

/-!
# Failure — what can go wrong, and how it is said

A failure is kept as its cause, with the paths and texts that it is about; `Failure.message` is the
one place where it is put into words.
-/

namespace ModuleRoster

/-- The number and the words the system has for a fault of a path; it never sees a path with a null
character. -/
def PathFault.systemError : PathFault → Option (Nat × Text)
  | .nullCharacter => none
  | .missing => some (2, "No such file or directory".toList)
  | .busy => some (16, "Device or resource busy".toList)
  | .notDirectory => some (20, "Not a directory".toList)
  | .isDirectory => some (21, "Is a directory".toList)
  | .nameTooLong => some (36, "File name too long".toList)
  | .tooManyLinks => some (40, "Too many levels of symbolic links".toList)

/-- What is said of a fault, given the quoted paths it is about. -/
def PathFault.message (fault : PathFault) (paths : Text) : Text :=
  match fault.systemError with
  | none => "embedded null byte".toList
  | some (number, words) =>
      "[Errno ".toList ++ Text.ofInt number ++ "] ".toList ++ words ++ ": ".toList ++ paths

/-- **The cause of a failure.** -/
inductive Failure
  /-- The names of the bundled modules cannot be had. -/
  | noRegistry
  /-- The clock does not show a finite time. -/
  | badClock (cause : Binary64.NoInteger)
  /-- A path cannot be used. -/
  | badPath (fault : PathFault) (path : Text)
  /-- An entry cannot be given another path. -/
  | badRename (fault : PathFault) (source target : Text)
  /-- The encoding is none that every system has, and the system refuses to use it. -/
  | unknownEncoding (refusal : Codecs.Refusal)
  /-- The encoding does not hold the text. -/
  | unencodable (fault : OneByte.Fault)
  /-- The content of a file is not UTF-8. -/
  | undecodable (fault : Utf8.Fault)
  deriving DecidableEq, Repr

namespace Failure

/-- **The words for a failure.** -/
def message : Failure → Text
  | .noRegistry => "module 'sys' has no attribute 'stdlib_module_names'".toList
  | .badClock .nan => "cannot convert float NaN to integer".toList
  | .badClock .infinite => "cannot convert float infinity to integer".toList
  | .badPath fault path => fault.message (Text.quoted path)
  | .badRename fault source target =>
      fault.message (Text.quoted source ++ " -> ".toList ++ Text.quoted target)
  | .unknownEncoding refusal => refusal.message
  | .unencodable fault => fault.message
  | .undecodable fault => fault.message

end Failure

end ModuleRoster
