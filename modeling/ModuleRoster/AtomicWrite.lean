import ModuleRoster.Failure
import ModuleRoster.FileTree.Access

/-!
# AtomicWrite — replacing a file in one step

The new content is written under a temporary name beside the file and then moved over it, so the
file shows the old content or the new one and nothing between.  If anything fails on the way, what
stands at the temporary name is removed.

A call goes through `temporaryName`, `AtomicWrite.openAndWrite`, `AtomicWrite.swap` and, after a
failure of these two, `AtomicWrite.cleanUp`.
-/

namespace ModuleRoster

/-- **The temporary name for a path**: the process and the time in nanoseconds are put behind it.
The product is taken in double precision and its fraction is dropped. -/
def temporaryName (path : Text) (pid : Int) (now : Binary64) : Except Binary64.NoInteger Text :=
  (now.scale 1000000000).truncate.map fun ns =>
    path ++ '-' :: Text.ofInt pid ++ '-' :: Text.ofInt ns

/-- **What is to be written where**, and the name of the encoding.  The system that does it may add
encodings to those that every system has. -/
structure AtomicWrite where
  path : Text
  text : Text
  encoding : Text
  [codecs : Codecs]

namespace AtomicWrite

/-- **The bytes to be written.** -/
def content (w : AtomicWrite) : Except Failure Bytes :=
  match Encoding.ofName? w.encoding with
  | some encoding => (encoding.encode w.text).mapError .unencodable
  | none => (w.codecs.encode w.encoding w.text).mapError .unknownEncoding

section

variable {w : AtomicWrite}

/-- **An encoding that every system has** gives the bytes, whatever else the system adds. -/
theorem content_of_known {encoding : Encoding}
    (named : Encoding.ofName? w.encoding = some encoding) :
    w.content = (encoding.encode w.text).mapError .unencodable := by
  rw [content, named]

/-- No system has an encoding with a null character in its name. -/
theorem content_of_null (null : '\x00' ∈ w.encoding) :
    w.content = .error (.unknownEncoding .nullCharacter) := by
  have unnamed : Encoding.ofName? w.encoding = none := by
    rw [Encoding.ofName?, if_pos null]
  rw [content, unnamed, Codecs.encode, if_pos null]
  rfl

variable (unnamed : Encoding.ofName? w.encoding = none) (noNull : '\x00' ∉ w.encoding)
include unnamed noNull

/-- **Under any other name** the system has its own encoder, or none. -/
theorem content_of_unknown (missing : w.codecs.encoder? w.encoding = none) :
    w.content = .error (.unknownEncoding (.unknown w.encoding)) := by
  rw [content, unnamed, Codecs.encode, if_neg noNull, missing]
  rfl

theorem content_of_added {encode : Text → Except CodecError Bytes}
    (added : w.codecs.encoder? w.encoding = some encode) :
    w.content = (encode w.text).mapError (.unknownEncoding <| .own ·) := by
  simp only [content, unnamed, Codecs.encode, if_neg noNull, added]
  cases encode w.text <;> rfl

end

/-- **Make the temporary file and fill it.**  The file is made first, so it is there, and empty, if
the text cannot be encoded. -/
def openAndWrite (w : AtomicWrite) (temporary : Text) (tree : FileTree) :
    Except Failure Unit × FileTree :=
  match tree.create temporary with
  | .error fault => (.error (.badPath fault temporary), tree)
  | .ok (file, opened) =>
      match w.content with
      | .error failure => (.error failure, opened)
      | .ok bytes => (.ok (), opened.append file bytes)

/-- Move the temporary file over the one to be replaced. -/
def swap (w : AtomicWrite) (temporary : Text) (tree : FileTree) :
    Except Failure Unit × FileTree :=
  match tree.rename temporary w.path with
  | .error fault => (.error (.badRename fault temporary w.path), tree)
  | .ok swapped => (.ok (), swapped)

/-- **Tidy up after a failure**: remove what is at the temporary name, if that leads to anything.
If this fails too, its own failure is the one that counts. -/
def cleanUp (temporary : Text) (failure : Failure) (tree : FileTree) :
    Except Failure Unit × FileTree :=
  if tree.leadsTo temporary then
    match tree.remove temporary with
    | .error fault => (.error (.badPath fault temporary), tree)
    | .ok cleared => (.error failure, cleared)
  else (.error failure, tree)

/-- The call with its temporary name chosen. -/
def runWith (w : AtomicWrite) (temporary : Text) (tree : FileTree) :
    Except Failure Unit × FileTree :=
  match w.openAndWrite temporary tree with
  | (.error failure, written) => cleanUp temporary failure written
  | (.ok (), written) =>
      match w.swap temporary written with
      | (.error failure, written) => cleanUp temporary failure written
      | (.ok (), swapped) => (.ok (), swapped)

/-- **Replace a file**: the result of the call, and the tree after it. -/
def run (w : AtomicWrite) (pid : Int) (now : Binary64) (tree : FileTree) :
    Except Failure Unit × FileTree :=
  match temporaryName w.path pid now with
  | .error cause => (.error (.badClock cause), tree)
  | .ok temporary => w.runWith temporary tree

end AtomicWrite

end ModuleRoster
