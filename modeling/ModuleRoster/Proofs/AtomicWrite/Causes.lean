import ModuleRoster.Proofs.AtomicWrite.TakenName
import ModuleRoster.Proofs.FileTree.Folder

/-!
# Proofs/AtomicWrite/Causes — which failure a call ends in

Several things can be the matter with a call at once: with its clock, its folder, its temporary
name, its encoding, its text and the entry of its path.  `Trouble.order` has them in the order in
which they are met.  Each is looked for in the tree before the call, and the first that is there
decides the result (`run_firstTrouble`).  The encoding may be one that the system adds, and then its
encoder has the last word on the text.

Before the temporary file is open, nothing can come in between.  After that, tidying up could add a
failure of its own; `cleanUp_opened` says that it does not.
-/

namespace ModuleRoster

open FileTree

namespace AtomicWrite

variable {w : AtomicWrite} {pid : Int} {now : Binary64} {temporary : Text} {tree : FileTree}
  {folder : Place} {name : Text} {old : Option Entry} {content : Bytes} {failure : Failure}
  {fault : PathFault}

/-! ## When the temporary file is not opened -/

/-- **A temporary name that leads nowhere** for any purpose that follows links is what the call
fails for, and there is nothing to tidy up. -/
theorem run_fst_of_closed (named : temporaryName w.path pid now = .ok temporary)
    (closed : ∀ purpose : Purpose, purpose.follows false = true →
      tree.locate purpose temporary = .error fault) :
    (w.run pid now tree).1 = .error (.badPath fault temporary) := by
  have hcreate : tree.create temporary = .error fault := by
    simp [create, bind, Except.bind, closed .creating rfl]
  have hleads : tree.leadsTo temporary = false := by
    simp [leadsTo, closed .reading rfl]
  rw [run_of_closed named hcreate, cleanUp, if_neg (by simp [hleads])]

/-- So is a directory at the temporary name. -/
theorem run_fst_of_directory (named : temporaryName w.path pid now = .ok temporary)
    (taken : tree.entryAt? temporary = some .directory) :
    (w.run pid now tree).1 = .error (.badPath .isDirectory temporary) := by
  obtain ⟨folder, name, h⟩ := finds_of_taken named taken
  rcases hrun : w.run pid now tree with ⟨result, after⟩
  cases endsTaken_of_directory named hrun h
  rfl

/-! ## When it is -/

section

variable (opens : tree.Finds .creating temporary folder name old)
  (free : ∀ other, old = some other → ∃ content, other = .file content)
include opens free

/-- **Tidying up adds no failure of its own**, once the temporary file was open: at the temporary
name there is then this file, or a link that leads to it. -/
theorem cleanUp_opened : (cleanUp temporary failure
    (tree.insert (name :: folder) (.file content))).1 = .error failure := by
  have hmade : (tree.insert (name :: folder) (.file content)).Finds .creating temporary folder name
      (some (.file content)) := opens.insert_file free
  generalize tree.insert (name :: folder) (.file content) = written at hmade ⊢
  obtain ⟨usable, leads⟩ := locate_eq_ok_iff.1 hmade.located
  have removable : ∃ base last entry, written.Finds .entry temporary base last (some entry) ∧
      entry ≠ .directory := by
    rcases leads.entry_or_link with own | ⟨base, last, slash, target, _, own, found, onward⟩
    · exact ⟨folder, name, _, ⟨locate_eq_ok_iff.2 ⟨usable, own⟩, hmade.found⟩, nofun⟩
    · obtain ⟨rfl, -⟩ := Bool.or_eq_false_iff.1 (onward.noSlash rfl)
      exact ⟨base, last, _, ⟨locate_eq_ok_iff.2 ⟨usable, own⟩, found⟩, nofun⟩
  obtain ⟨base, last, entry, hentry, noDirectory⟩ := removable
  cases hleads : written.leadsTo temporary with
  | true => rw [cleanUp_taken hentry noDirectory hleads]
  | false => rw [cleanUp, if_neg (by simp [hleads])]

/-- **The result of a call that has opened its temporary file**: it can fail for its content, and
then for the renaming. -/
theorem run_fst_of_opened (named : temporaryName w.path pid now = .ok temporary) :
    (w.run pid now tree).1 = w.content.bind fun bytes =>
      (((tree.insert (name :: folder) (.file bytes)).rename temporary w.path).map
        fun _ => ()).mapError (.badRename · temporary w.path) := by
  have hcreate : tree.create temporary
      = .ok (name :: folder, tree.insert (name :: folder) (.file [])) :=
    create_eq_ok_iff.2 ⟨folder, name, old, opens, free, rfl, rfl⟩
  rcases hcontent : w.content with failure | bytes
  · simp [run, named, runWith, openAndWrite, hcreate, hcontent, cleanUp_opened opens free,
      Except.bind]
  rcases hrename : (tree.insert (name :: folder) (.file bytes)).rename temporary w.path
    with fault | after
  · simp [run, named, runWith, openAndWrite, swap, hcreate, hcontent, append_insert, hrename,
      cleanUp_opened opens free, Except.bind, Except.map, Except.mapError]
  · simp [run, named, runWith, openAndWrite, swap, hcreate, hcontent, append_insert, hrename,
      Except.bind, Except.map, Except.mapError]

end

/-! ## The renaming -/

section

variable {path suffix : Text} {base : Place}

/-- **The renaming fails for a directory at the path and for nothing else**, once the temporary file
is written: it is in the folder of the path. -/
theorem rename_written (noSlash : '/' ∉ suffix) (hyphen : '-' ∈ suffix)
    (usable : Path.IsUsable (path ++ suffix)) (named : Path.EndsInName path)
    (entered : tree.enter path = .ok base)
    (short : Utf8.size (Path.lastPart (path ++ suffix)) ≤ maxNameSize)
    (free : ∀ other, tree.entryAt? (path ++ suffix) = some other →
      ∃ content, other = .file content) :
    ((tree.insert (Path.lastPart (path ++ suffix) :: base) (.file content)).rename
        (path ++ suffix) path).map (fun _ => ())
      = if tree.entryAt? path = some .directory then .error .isDirectory else .ok () := by
  have hlast := (Path.parts_append noSlash path).2
  have hpath : path ≠ [] := fun h => named.ne_nil (by rw [h]; rfl)
  have hbeside := finds_of_enter usable (Path.endsInName_append noSlash hyphen path)
    ((enter_append noSlash).trans entered) short
  have hentry := finds_of_enter (usable.of_append hpath) named entered (by
    rw [hlast, Utf8.size_append] at short
    omega)
  have hsource : (tree.insert (Path.lastPart (path ++ suffix) :: base) (.file content)).Finds .entry
      (path ++ suffix) base _ (some (.file content)) := hbeside.insert_file free
  -- the file that was made is beside the entry of the path
  have hne : Path.lastPart path :: base ≠ Path.lastPart (path ++ suffix) :: base :=
    hlast ▸ (beside_ne base (List.ne_nil_of_mem hyphen)).symm
  have htarget : (tree.insert (Path.lastPart (path ++ suffix) :: base) (.file content)).Finds .entry
      path base (Path.lastPart path) (tree.entryAt? path) :=
    hentry.insert_apart (by rwa [(find_eq_ok_iff.1 hbeside.found).2]) (List.cons_ne_nil _ base) hne
  split
  next directory =>
    rw [directory] at htarget
    simp [rename, bind, Except.bind, Except.map, hsource.located, hsource.found, htarget.located,
      htarget.found]
  next noDirectory =>
    have isFile : Entry.file content ≠ .directory := by simp
    rw [rename_eq_ok_iff.2 ⟨_, _, _, _, _, _, hsource, isFile, htarget, noDirectory, rfl⟩]
    rfl

/-- **The result of a call that gets into its folder**, with a name that is not too long and no
directory or link under it. -/
theorem run_fst_of_entered (noSlash : '/' ∉ suffix) (hyphen : '-' ∈ suffix)
    (usable : Path.IsUsable (w.path ++ suffix)) (ends : Path.EndsInName w.path)
    (entered : tree.enter w.path = .ok base)
    (short : Utf8.size (Path.lastPart (w.path ++ suffix)) ≤ maxNameSize)
    (free : ∀ other, tree.entryAt? (w.path ++ suffix) = some other →
      ∃ content, other = .file content)
    (named : temporaryName w.path pid now = .ok (w.path ++ suffix)) :
    (w.run pid now tree).1 = w.content.bind fun _ =>
      if tree.entryAt? w.path = some .directory then
        .error (.badRename .isDirectory (w.path ++ suffix) w.path)
      else .ok () := by
  have hfinds := finds_of_enter usable (Path.endsInName_append noSlash hyphen w.path)
    ((enter_append noSlash).trans entered) short
  have opens : tree.Finds .creating (w.path ++ suffix) base _ _ := hfinds.of_entry fun target h => by
    obtain ⟨_, hfile⟩ := free _ h
    cases hfile
  rw [run_fst_of_opened opens free named]
  congr 1
  funext bytes
  rw [rename_written noSlash hyphen usable ends entered short free]
  split <;> rfl

end

end AtomicWrite

/-! ## The causes -/

/-- **What can be the matter with a call.** -/
inductive Trouble
  /-- The time is no number, or infinite in nanoseconds. -/
  | clock
  /-- The temporary name is too long for a path. -/
  | longPath
  /-- The folder of the path cannot be opened. -/
  | folder
  /-- What is behind the last slash of the temporary name is too long for a name. -/
  | longName
  /-- A directory stands at the temporary name. -/
  | directory
  /-- There is a null character in the name of the encoding. -/
  | nullInEncoding
  /-- No encoding has the name that is asked for, not even one that the system adds. -/
  | encoding
  /-- The encoding has no bytes for the text. -/
  | text
  /-- A directory stands at the path itself; a link to one does not count. -/
  | target
  deriving DecidableEq, Repr

namespace Trouble

/-- **All troubles**, in the order in which a call meets them. -/
def order : List Trouble :=
  [clock, longPath, folder, longName, directory, nullInEncoding, encoding, text, target]

/-- **The failure for a trouble**, if a call has it in a tree.  No trouble depends on another, apart
from the clock, without which there is no temporary name. -/
def failure (c : Call) (tree : FileTree) : Trouble → Option Failure
  | clock =>
      match c.now.scale 1000000000 with
      | .nan => some (.badClock .nan)
      | .infinite _ => some (.badClock .infinite)
      | .finite _ _ => none
  | longPath => c.temporaryName?.bind fun temporary =>
      if maxPathSize < Utf8.size temporary then some (.badPath .nameTooLong temporary) else none
  | folder => c.temporaryName?.bind fun temporary =>
      match tree.enter c.write.path with
      | .error fault => some (.badPath fault temporary)
      | .ok _ => none
  | longName => c.temporaryName?.bind fun temporary =>
      if maxNameSize < Utf8.size (Path.lastPart temporary) then
        some (.badPath .nameTooLong temporary)
      else none
  | directory => c.temporaryName?.bind fun temporary =>
      if tree.entryAt? temporary = some .directory then some (.badPath .isDirectory temporary)
      else none
  | nullInEncoding =>
      if '\x00' ∈ c.write.encoding then some (.unknownEncoding .nullCharacter) else none
  | encoding =>
      if Encoding.ofName? c.write.encoding = none ∧
          (c.write.codecs.encoder? c.write.encoding).isNone then
        some (.unknownEncoding (.unknown c.write.encoding))
      else none
  | text =>
      match Encoding.ofName? c.write.encoding with
      | some known =>
          match known.encode c.write.text with
          | .error fault => some (.unencodable fault)
          | .ok _ => none
      | none => (c.write.codecs.encoder? c.write.encoding).bind fun encode =>
          match encode c.write.text with
          | .error error => some (.unknownEncoding (.own error))
          | .ok _ => none
  | target => c.temporaryName?.bind fun temporary =>
      if tree.entryAt? c.write.path = some .directory then
        some (.badRename .isDirectory temporary c.write.path)
      else none

variable {c : Call} {tree : FileTree} {trouble : Trouble} {troubles : List Trouble}
  {result : Except Failure Unit} {temporary : Text}

/-- **The result that troubles lead to**: the failure for the first of them that the call has, and a
success if it has none of them. -/
def verdict (c : Call) (tree : FileTree) (troubles : List Trouble) : Except Failure Unit :=
  match troubles.findSome? (failure c tree) with
  | some failure => .error failure
  | none => .ok ()

/-- **One trouble after the other**: if a call has the first, this is what it fails for, and if it
has not, the others decide. -/
theorem eq_verdict_cons (here : ∀ cause, failure c tree trouble = some cause → result = .error cause)
    (onward : failure c tree trouble = none → result = verdict c tree troubles) :
    result = verdict c tree (trouble :: troubles) := by
  rcases h : failure c tree trouble with _ | cause
  · rw [onward h, verdict, verdict, List.findSome?_cons_of_isNone (by simp [h])]
  · rw [here cause h, verdict, List.findSome?_cons_of_isSome (by simp [h]), h]

theorem mem_order (trouble : Trouble) : trouble ∈ order := by
  cases trouble <;> decide

/-- **A success is a call without a trouble.** -/
theorem verdict_order_eq_ok_iff :
    verdict c tree order = .ok () ↔ ∀ trouble, failure c tree trouble = none := by
  have hnone : order.findSome? (failure c tree) = none ↔
      ∀ trouble, failure c tree trouble = none := by
    rw [List.findSome?_eq_none_iff]
    exact ⟨fun h trouble => h trouble (mem_order trouble), fun h trouble _ => h trouble⟩
  rw [← hnone, verdict]
  cases order.findSome? (failure c tree) <;> simp

/-- **The clock decides whether there is a temporary name.** -/
theorem failure_clock (c : Call) (tree : FileTree) : failure c tree clock =
    match temporaryName c.write.path c.pid c.now with
    | .error cause => some (.badClock cause)
    | .ok _ => none := by
  rw [Trouble.failure, temporaryName]
  cases c.now.scale 1000000000 <;> rfl

/-- **The troubles of a call that is in its folder** and has a file to write to: those of the
content, and then a directory in the way. -/
theorem content_eq_verdict (named : c.temporaryName? = some temporary) :
    (c.write.content.bind fun _ =>
      if tree.entryAt? c.write.path = some .directory then
        .error (.badRename .isDirectory temporary c.write.path)
      else .ok ()) = verdict c tree [nullInEncoding, encoding, text, target] := by
  have last : (fun _ : Bytes => if tree.entryAt? c.write.path = some .directory then
      Except.error (.badRename .isDirectory temporary c.write.path)
      else .ok ()) = fun _ => verdict c tree [target] := by
    funext _
    by_cases occupied : tree.entryAt? c.write.path = some .directory <;>
      simp [verdict, Trouble.failure, named, occupied]
  rw [last]
  by_cases null : '\x00' ∈ c.write.encoding
  · rw [AtomicWrite.content_of_null null]
    simp [verdict, Trouble.failure, null, Except.bind]
  rcases hencoding : Encoding.ofName? c.write.encoding with _ | known
  · rcases hencoder : c.write.codecs.encoder? c.write.encoding with _ | encode
    · rw [AtomicWrite.content_of_unknown hencoding null hencoder]
      simp [verdict, Trouble.failure, null, hencoding, hencoder, Except.bind]
    · rw [AtomicWrite.content_of_added hencoding null hencoder]
      cases hbytes : encode c.write.text <;>
        simp [verdict, Trouble.failure, null, hencoding, hencoder, hbytes, Except.mapError,
          Except.bind]
  · rw [AtomicWrite.content_of_known hencoding]
    cases hbytes : known.encode c.write.text <;>
      simp [verdict, Trouble.failure, null, hencoding, hbytes, Except.mapError, Except.bind]

end Trouble

namespace AtomicWrite

/-- **A character of a temporary name** is one of the path, or it is a hyphen or a digit. -/
theorem mem_temporaryName {path temporary : Text} {pid : Int} {now : Binary64} {c : Char}
    (h : temporaryName path pid now = .ok temporary) (hc : c ∈ temporary) :
    c ∈ path ∨ c = '-' ∨ c.isDigit = true := by
  unfold temporaryName at h
  rcases hns : (now.scale 1000000000).truncate with cause | ns
  · rw [hns] at h
    cases h
  · rw [hns] at h
    cases h
    have hmem : c ∈ path ∨ c = '-' ∨ c ∈ Text.ofInt pid ∨ c = '-' ∨ c ∈ Text.ofInt ns := by
      simpa using hc
    rcases hmem with h | h | h | h | h
    · exact Or.inl h
    · exact Or.inr (Or.inl h)
    · exact Or.inr (Text.eq_hyphen_or_isDigit_of_mem_ofInt h)
    · exact Or.inr (Or.inl h)
    · exact Or.inr (Text.eq_hyphen_or_isDigit_of_mem_ofInt h)

/-- **The result of a call that has a temporary name** is decided by the troubles other than that of
the clock. -/
theorem run_fst_of_named {c : Call} {tree : FileTree} {temporary : Text}
    (htemporary : temporaryName c.write.path c.pid c.now = .ok temporary)
    (noNull : '\x00' ∉ c.write.path) (named : Path.EndsInName c.write.path)
    (noLink : ∀ target, tree.entryAt? temporary ≠ some (.link target)) :
    (c.write.run c.pid c.now tree).1 = Trouble.verdict c tree
      [.longPath, .folder, .longName, .directory, .nullInEncoding, .encoding, .text, .target] := by
  have hname : c.temporaryName? = some temporary := by
    rw [Call.temporaryName?, htemporary]
    rfl
  obtain ⟨suffix, rfl, noSlash, hyphen⟩ := temporaryName_eq_append htemporary
  have noNull' : '\x00' ∉ c.write.path ++ suffix := fun h => by
    simpa [noNull] using mem_temporaryName htemporary h
  have hne : c.write.path ++ suffix ≠ [] := by
    simp [List.ne_nil_of_mem hyphen]
  have ends := Path.endsInName_append noSlash hyphen c.write.path
  have hfolder : tree.enter (c.write.path ++ suffix) = tree.enter c.write.path :=
    enter_append noSlash
  refine Trouble.eq_verdict_cons (fun cause h => ?longPath) fun h => ?_
  case longPath =>
    obtain ⟨long, rfl⟩ : maxPathSize < Utf8.size (c.write.path ++ suffix) ∧ _ = cause := by
      simpa [Trouble.failure, hname] using h
    exact run_fst_of_closed htemporary fun _ _ => locate_of_longPath noNull' hne long
  have usable : Path.IsUsable (c.write.path ++ suffix) :=
    ⟨noNull', hne, by simpa [Trouble.failure, hname] using h⟩
  rcases entered : tree.enter c.write.path with fault | base
  · refine Trouble.eq_verdict_cons (fun cause h => ?_) fun h => ?_
    · obtain rfl : .badPath fault _ = cause := by simpa [Trouble.failure, hname, entered] using h
      exact run_fst_of_closed htemporary fun purpose _ =>
        locate_of_closed usable ends (hfolder.trans entered) purpose
    · simp [Trouble.failure, hname, entered] at h
  refine Trouble.eq_verdict_cons (fun cause h => ?_) fun _ => ?_
  · simp [Trouble.failure, hname, entered] at h
  refine Trouble.eq_verdict_cons (fun cause h => ?longName) fun h => ?_
  case longName =>
    obtain ⟨long, rfl⟩ :
        maxNameSize < Utf8.size (Path.lastPart (c.write.path ++ suffix)) ∧ _ = cause := by
      simpa [Trouble.failure, hname] using h
    exact run_fst_of_closed htemporary fun _ follows =>
      locate_of_longName usable ends (hfolder.trans entered) long follows
  have short : Utf8.size (Path.lastPart (c.write.path ++ suffix)) ≤ maxNameSize := by
    simpa [Trouble.failure, hname] using h
  refine Trouble.eq_verdict_cons (fun cause h => ?directory) fun h => ?_
  case directory =>
    obtain ⟨taken, rfl⟩ : tree.entryAt? (c.write.path ++ suffix) = some .directory ∧ _ = cause := by
      simpa [Trouble.failure, hname] using h
    exact run_fst_of_directory htemporary taken
  have noDirectory : tree.entryAt? (c.write.path ++ suffix) ≠ some .directory := by
    simpa [Trouble.failure, hname] using h
  have free : ∀ other, tree.entryAt? (c.write.path ++ suffix) = some other →
      ∃ content, other = .file content := by
    intro other hother
    cases other with
    | file content => exact ⟨content, rfl⟩
    | directory => exact absurd hother noDirectory
    | link target => exact absurd hother (noLink target)
  rw [run_fst_of_entered noSlash hyphen usable named entered short free htemporary]
  exact Trouble.content_eq_verdict hname

/-- **The first trouble of a call is what it fails for, and a call without a trouble succeeds.**  The
path ends in a name, and the temporary name is no link. -/
theorem run_firstTrouble (c : Call) (tree : FileTree) (noNull : '\x00' ∉ c.write.path)
    (named : Path.EndsInName c.write.path)
    (noLink : ∀ temporary target, temporaryName c.write.path c.pid c.now = .ok temporary →
      tree.entryAt? temporary ≠ some (.link target)) :
    (c.write.run c.pid c.now tree).1 = Trouble.verdict c tree Trouble.order ∧
      ((c.write.run c.pid c.now tree).1 = .ok () ↔
        ∀ trouble, Trouble.failure c tree trouble = none) := by
  have hclock := Trouble.failure_clock c tree
  suffices hrun : (c.write.run c.pid c.now tree).1 = Trouble.verdict c tree Trouble.order from
    ⟨hrun, hrun ▸ Trouble.verdict_order_eq_ok_iff⟩
  rcases htemporary : temporaryName c.write.path c.pid c.now with cause | temporary
  · rw [htemporary] at hclock
    simp [run, htemporary, Trouble.verdict, Trouble.order, hclock]
  · rw [htemporary] at hclock
    refine Trouble.eq_verdict_cons (fun cause h => ?_) fun _ => ?_
    · cases hclock.symm.trans h
    · exact run_fst_of_named htemporary noNull named fun target => noLink temporary target htemporary

/-- A vacant temporary name is no link. -/
theorem ne_link_of_vacant {path : Text} {pid : Int} {now : Binary64} {tree : FileTree}
    (vacant : TemporaryIsVacant path pid now tree) (temporary target : Text)
    (h : temporaryName path pid now = .ok temporary) :
    tree.entryAt? temporary ≠ some (.link target) := by
  rw [vacant temporary h]
  nofun

/-- A system that adds one encoding. -/
abbrev codecsWith (name : Text) (encode : Text → Except CodecError Bytes) : Codecs :=
  ⟨fun asked => if asked = name then some encode else none⟩

/-- Of two troubles the first counts, a link to a directory is none, and neither is an encoding that
the system adds. -/
theorem run_firstTrouble_linked :
    let c : Call := ⟨⟨"d".toList, "é".toList, "ascii".toList⟩, 7, .zero⟩
    let c' : Call := ⟨@AtomicWrite.mk "b".toList "é".toList "cp1252".toList
      (codecsWith "cp1252".toList fun t => .ok (t.map fun c => .ofNat c.toNat)), 7, .zero⟩
    Trouble.failure c linkedTree .target
        = some (.badRename .isDirectory "d-7-0".toList "d".toList) ∧
      (c.write.run c.pid c.now linkedTree).1
        = .error (.unencodable ⟨.ascii, 0, "é".toList⟩) ∧
      linkedTree.entryAt? "b".toList = some (.link "d".toList) ∧
      (c'.write.run c'.pid c'.now linkedTree).1 = .ok () := by
  intro c c'
  have vacant : TemporaryIsVacant c.write.path c.pid c.now linkedTree := by decide +kernel
  have vacant' : TemporaryIsVacant c'.write.path c'.pid c'.now linkedTree := by decide +kernel
  have hrun := (run_firstTrouble c linkedTree (by decide) ⟨by decide, by decide, by decide⟩
    (ne_link_of_vacant vacant)).1
  have hrun' := (run_firstTrouble c' linkedTree (by decide) ⟨by decide, by decide, by decide⟩
    (ne_link_of_vacant vacant')).1
  refine ⟨by decide +kernel, hrun.trans ?_, by decide +kernel, hrun'.trans ?_⟩
  · decide +kernel
  · decide +kernel

/-- **A path that is not too long can have a temporary name that is.**  No other trouble is there,
and the call fails. -/
theorem run_staying_longPath :
    let c : Call := ⟨⟨Path.staying 2046 ++ "a".toList, "os".toList, "utf-8".toList⟩, 1, .zero⟩
    '\x00' ∉ c.write.path ∧ Path.EndsInName c.write.path ∧ ∃ temporary,
      temporaryName c.write.path c.pid c.now = .ok temporary ∧
      FileTree.empty.entryAt? temporary = none ∧
      (∀ trouble ≠ .longPath, Trouble.failure c .empty trouble = none) ∧
      (c.write.run c.pid c.now .empty).1 = .error (.badPath .nameTooLong temporary) := by
  intro c
  obtain ⟨temporary, hlonger⟩ : ∃ temporary, temporary = c.write.path ++ "-1-0".toList := ⟨_, rfl⟩
  have htemporary : temporaryName c.write.path c.pid c.now = .ok temporary := by
    have hns : (c.now.scale 1000000000).truncate = .ok 0 := by decide +kernel
    rw [temporaryName, hns, hlonger]
    change Except.ok (c.write.path ++ _ ++ _) = _
    rw [List.append_assoc]
    rfl
  have named : Path.EndsInName "a".toList := ⟨by decide, by decide, by decide⟩
  have noNull : '\x00' ∉ c.write.path := Path.noNull_staying_append 2046 (by decide)
  have hsize : Utf8.size c.write.path = 4093 := Path.size_staying_append "a".toList 2046
  have usable : Path.IsUsable c.write.path := ⟨noNull, by decide, hsize ▸ by decide⟩
  have hlast : Path.lastPart temporary = "a-1-0".toList := by
    rw [hlonger, (Path.parts_append (by decide) _).2, (Path.parts_staying_append "a".toList 2046).2]
    rfl
  -- the temporary name has four bytes more than the path, and two too many
  have unwalked : ∀ purpose, FileTree.empty.locate purpose temporary = .error .nameTooLong := by
    intro purpose
    refine locate_of_longPath (fun h => ?_) (by simp [hlonger]) ?_
    · simpa [noNull] using mem_temporaryName htemporary h
    · rw [hlonger, Utf8.size_append, hsize]
      decide
  have vacant : FileTree.empty.entryAt? temporary = none := by
    simp [entryAt?, unwalked]
  refine ⟨noNull, named.staying_append 2046, temporary, htemporary, vacant,
    fun trouble hother => ?_, run_fst_of_closed htemporary fun purpose _ => unwalked purpose⟩
  have hname : c.temporaryName? = some temporary := by
    rw [Call.temporaryName?, htemporary]
    rfl
  cases trouble with
  | clock => rw [Trouble.failure_clock, htemporary]
  | longPath => exact absurd rfl hother
  | folder =>
      have entered : FileTree.empty.enter c.write.path = .ok [] :=
        (enter_staying_append usable named).trans (by decide)
      simp [Trouble.failure, hname, entered]
  | longName =>
      have short : ¬maxNameSize < Utf8.size (Path.lastPart temporary) := by
        rw [hlast]
        decide
      simp only [Trouble.failure, hname, Option.bind_some, if_neg short]
  | directory => simp [Trouble.failure, hname, vacant]
  | nullInEncoding => decide +kernel
  | encoding => decide +kernel
  | text => decide +kernel
  | target =>
      have free : FileTree.empty.entryAt? c.write.path = none :=
        (entryAt?_staying_append usable (by decide)).trans (by decide)
      simp [Trouble.failure, hname, free]

/-- **Failures of three more kinds**: the temporary name is too long as a whole, a null character
stands in the name of the encoding, and an encoding that the system adds has an error of a kind of
its own. -/
theorem not_run_firstTrouble :
    let long : Call := ⟨⟨Path.staying 2046 ++ "a".toList, "os".toList, "utf-8".toList⟩, 1, .zero⟩
    let null : Call := ⟨⟨"a".toList, "os".toList, "utf\x008".toList⟩, 1, .zero⟩
    let error : CodecError := ⟨"UnicodeError".toList,
      "encoding with 'undefined' codec failed (UnicodeError: undefined encoding)".toList⟩
    let own : Call := ⟨@AtomicWrite.mk "a".toList "os".toList "undefined".toList
      (codecsWith "undefined".toList fun _ => .error error), 1, .zero⟩
    ('\x00' ∉ long.write.path ∧ Path.EndsInName long.write.path ∧ ∃ temporary,
        temporaryName long.write.path long.pid long.now = .ok temporary ∧
        FileTree.empty.entryAt? temporary = none ∧
        (∀ trouble ≠ .longPath, Trouble.failure long .empty trouble = none) ∧
        (long.write.run long.pid long.now .empty).1 = .error (.badPath .nameTooLong temporary)) ∧
      ((∀ trouble ∉ [.nullInEncoding, .encoding], Trouble.failure null .empty trouble = none) ∧
        (null.write.run null.pid null.now .empty).1 = .error (.unknownEncoding .nullCharacter)) ∧
      (∀ trouble ≠ .text, Trouble.failure own .empty trouble = none) ∧
        (own.write.run own.pid own.now .empty).1 = .error (.unknownEncoding (.own error)) := by
  intro long null error own
  refine ⟨run_staying_longPath, ⟨fun trouble h => ?_, by decide +kernel⟩, fun trouble h => ?_,
    by decide +kernel⟩
  · cases trouble <;> first | exact absurd (by decide) h | decide +kernel
  · cases trouble <;> first | exact absurd rfl h | decide +kernel

end AtomicWrite

end ModuleRoster
