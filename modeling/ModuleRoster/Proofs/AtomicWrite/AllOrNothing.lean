import ModuleRoster.Proofs.AtomicWrite.TemporaryName
import ModuleRoster.Proofs.FileTree.Beside

/-!
# Proofs/AtomicWrite/AllOrNothing — a file is replaced, or nothing is changed

A call that finds nothing at its temporary name ends in one of two ways.  If it fails, at whatever
step, its tree is the very tree it was given; if it succeeds, one entry of the tree is another,
namely the one of the path, which now is a file with the content (`run_allOrNothing`).

The file under the temporary name is the only intermediate state.  `cleanUp_inserted` says that
tidying up takes it away without a trace, which makes a failure undone (`run_error_of_vacant`), and
`steps_of_run` lists what a success has gone through.
-/

namespace ModuleRoster

namespace FileTree

/-- **The entry of a path, where a link is not followed, is replaced by a file**, and all other
places are as before. -/
def IsReplaced (before : FileTree) (path : Text) (content : Bytes)
    (after : FileTree) : Prop :=
  ∃ folder name, before.locate .entry path = .ok ⟨folder, some name, false⟩ ∧
    after = before.insert (name :: folder) (.file content) ∧
    ∀ place, after.get? place
      = if place = name :: folder then some (.file content) else before.get? place

/-- A directory with a file in it, and a link to the directory. -/
def linkedTree : FileTree :=
  ⟨[(["b".toList], .link "d".toList), (["d".toList], .directory),
    (["f".toList, "d".toList], .file [0x78])]⟩

end FileTree

namespace AtomicWrite

open FileTree

variable {w : AtomicWrite} {temporary : Text} {tree after : FileTree} {folder : Place} {name : Text}
  {content : Bytes} {failure : Failure}

/-! ## Tidying up -/

/-- Where nothing is, there is nothing to tidy up. -/
theorem cleanUp_vacant (vacant : tree.IsVacant temporary) :
    cleanUp temporary failure tree = (.error failure, tree) := by
  simp [cleanUp, vacant.not_leadsTo]

/-- Tidying up is no success. -/
theorem cleanUp_ne_ok : cleanUp temporary failure tree ≠ (.ok (), after) := by
  unfold cleanUp
  split
  next => split <;> exact nofun
  next => exact nofun

/-- **Tidying up undoes the making of the temporary file.** -/
theorem cleanUp_inserted (h : tree.Finds .entry temporary folder name none) :
    cleanUp temporary failure (tree.insert (name :: folder) (.file content))
      = (.error failure, tree) := by
  have hleads : (tree.insert (name :: folder) (.file content)).leadsTo temporary = true :=
    leadsTo_of_file (finds_insert_of_vacant h)
  have hremove : (tree.insert (name :: folder) (.file content)).remove temporary = .ok tree := by
    refine remove_eq_ok_iff.2 ⟨folder, name, _, finds_insert_of_vacant h, nofun, ?_⟩
    exact (erase_insert tree _ (find_eq_ok_iff.1 h.found).2).symm
  simp [cleanUp, hleads, hremove]

/-! ## The whole call -/

/-- A call that cannot open its temporary file tidies up at once. -/
theorem run_of_closed {pid : Int} {now : Binary64} {fault : PathFault}
    (named : temporaryName w.path pid now = .ok temporary)
    (closed : tree.create temporary = .error fault) :
    w.run pid now tree = cleanUp temporary (.badPath fault temporary) tree := by
  simp [run, named, runWith, openAndWrite, closed]

/-- **A call that can open its temporary file** writes to it as far as the text can be encoded, and
then moves what is at the temporary name or tidies up. -/
theorem run_of_opened {pid : Int} {now : Binary64} {old : Option Entry}
    (named : temporaryName w.path pid now = .ok temporary)
    (opens : tree.Finds .creating temporary folder name old)
    (free : ∀ other, old = some other → ∃ content, other = .file content) :
    (∃ failure, w.run pid now tree = cleanUp temporary failure
        (tree.insert (name :: folder) (.file (w.content.toOption.getD [])))) ∨
      ∃ bytes after, w.content = .ok bytes ∧
        (tree.insert (name :: folder) (.file bytes)).rename temporary w.path = .ok after ∧
        w.run pid now tree = (.ok (), after) := by
  have hcreate : tree.create temporary
      = .ok (name :: folder, tree.insert (name :: folder) (.file [])) :=
    create_eq_ok_iff.2 ⟨folder, name, old, opens, free, rfl, rfl⟩
  rcases hcontent : w.content with failure | bytes
  · exact Or.inl ⟨failure, by
      simp [run, named, runWith, openAndWrite, hcreate, hcontent, Except.toOption]⟩
  rcases hrename : (tree.insert (name :: folder) (.file bytes)).rename temporary w.path
    with fault | after
  · exact Or.inl ⟨.badRename fault temporary w.path, by
      simp [run, named, runWith, openAndWrite, swap, hcreate, hcontent, append_insert, hrename,
        Except.toOption]⟩
  · exact Or.inr ⟨bytes, after, rfl, hrename, by
      simp [run, named, runWith, openAndWrite, swap, hcreate, hcontent, append_insert, hrename]⟩

/-- **The steps of a call that succeeds**, whatever stood at the temporary name: a file with the
content stands where the temporary name leads, and the temporary name is given to the path. -/
theorem steps_of_run {pid : Int} {now : Binary64} (h : w.run pid now tree = (.ok (), after)) :
    ∃ suffix folder name entry bytes, temporaryName w.path pid now = .ok (w.path ++ suffix) ∧
      '/' ∉ suffix ∧ '-' ∈ suffix ∧ w.content = .ok bytes ∧
      tree.Finds .creating (w.path ++ suffix) folder name entry ∧
      (∀ other, entry = some other → ∃ content, other = .file content) ∧
      (tree.insert (name :: folder) (.file bytes)).rename (w.path ++ suffix) w.path
        = .ok after := by
  rcases named : temporaryName w.path pid now with cause | temporary
  · simp [run, named] at h
  obtain ⟨suffix, rfl, noSlash, hyphen⟩ := temporaryName_eq_append named
  rcases hcreate : tree.create (w.path ++ suffix) with fault | ⟨place, opened⟩
  · exact absurd ((run_of_closed named hcreate).symm.trans h) cleanUp_ne_ok
  obtain ⟨folder, name, entry, opens, free, rfl, rfl⟩ := create_eq_ok_iff.1 hcreate
  rcases run_of_opened named opens free with ⟨failure, hfails⟩ | ⟨bytes, moved, hcontent, hrename,
    hsucceeds⟩
  · exact absurd (hfails.symm.trans h) cleanUp_ne_ok
  · cases hsucceeds.symm.trans h
    exact ⟨suffix, folder, name, entry, bytes, rfl, noSlash, hyphen, hcontent, opens, free, hrename⟩

/-- **What is at the temporary name is moved to the place beside.** -/
theorem rename_beside {path suffix : Text} {entry : Entry} (noSlash : '/' ∉ suffix)
    (hyphen : '-' ∈ suffix) (h : tree.Finds .entry (path ++ suffix) folder name (some entry))
    (hrename : tree.rename (path ++ suffix) path = .ok after) :
    ∃ short replaced, name = short ++ suffix ∧ tree.Finds .entry path folder short replaced ∧
      replaced ≠ some .directory ∧
      after = (tree.erase (name :: folder)).insert (short :: folder) entry := by
  obtain ⟨_, _, _, _, short, replaced, hsource, _, htarget, hreplaced, rfl⟩ :=
    rename_eq_ok_iff.1 hrename
  cases hsource.located.symm.trans h.located
  cases hsource.found.symm.trans h.found
  have hbeside := locate_append htarget.located (locate_eq_ok_iff.1 h.located).1 noSlash hyphen
  cases hbeside.symm.trans h.located
  exact ⟨short, replaced, rfl, htarget, hreplaced, rfl⟩

/-- **Moving the new file replaces one entry**: the one of the path, whatever it was. -/
theorem rename_of_vacant {path suffix : Text} (noSlash : '/' ∉ suffix) (hyphen : '-' ∈ suffix)
    (h : tree.Finds .entry (path ++ suffix) folder name none)
    (hrename : (tree.insert (name :: folder) (.file content)).rename (path ++ suffix) path
      = .ok after) :
    ∃ short replaced, name = short ++ suffix ∧ tree.Finds .entry path folder short replaced ∧
      replaced ≠ some .directory ∧ after = tree.insert (short :: folder) (.file content) := by
  obtain ⟨short, replaced, rfl, htarget, hreplaced, rfl⟩ :=
    rename_beside noSlash hyphen (finds_insert_of_vacant h) hrename
  -- the target is the same in the tree without the file that was made
  have htarget' := locate_mono (hasWays_of_insert_file (List.cons_ne_nil _ folder)) htarget.located
  have hne : (short ++ suffix) :: folder ≠ short :: folder :=
    beside_ne folder (List.ne_nil_of_mem hyphen)
  have hfound := find_eq_ok_iff.1 htarget.found
  rw [get?_insert tree (List.cons_ne_nil _ folder), if_neg hne.symm] at hfound
  refine ⟨short, replaced, rfl, ⟨htarget', find_eq_ok_iff.2 hfound⟩, hreplaced, ?_⟩
  rw [erase_insert tree _ (find_eq_ok_iff.1 h.found).2]

/-- **What a call that succeeds has done**, if it found nothing at its temporary name. -/
theorem run_ok_of_vacant {pid : Int} {now : Binary64}
    (vacant : TemporaryIsVacant w.path pid now tree) (h : w.run pid now tree = (.ok (), after)) :
    ∃ folder name suffix replaced bytes,
      temporaryName w.path pid now = .ok (w.path ++ suffix) ∧ suffix ≠ [] ∧
      tree.Finds .entry (w.path ++ suffix) folder (name ++ suffix) none ∧
      tree.Finds .entry w.path folder name replaced ∧ replaced ≠ some .directory ∧
      w.content = .ok bytes ∧ after = tree.insert (name :: folder) (.file bytes) := by
  obtain ⟨suffix, folder, _, _, bytes, htemporary, noSlash, hyphen, hcontent, hfinds, _, hrename⟩ :=
    steps_of_run h
  obtain ⟨-, hnothing⟩ := (vacant _ htemporary).finds hfinds
  obtain ⟨short, replaced, rfl, htarget, hreplaced, rfl⟩ :=
    rename_of_vacant noSlash hyphen hnothing hrename
  exact ⟨folder, short, suffix, replaced, bytes, htemporary, List.ne_nil_of_mem hyphen, hnothing,
    htarget, hreplaced, hcontent, rfl⟩

/-- **A call that succeeds has replaced the entry of its path**, and nothing else. -/
theorem isReplaced_of_run {pid : Int} {now : Binary64}
    (vacant : TemporaryIsVacant w.path pid now tree) (h : w.run pid now tree = (.ok (), after)) :
    ∃ bytes, w.content = .ok bytes ∧ tree.IsReplaced w.path bytes after := by
  obtain ⟨folder, name, _, _, bytes, _, _, _, hfinds, _, hcontent, rfl⟩ := run_ok_of_vacant vacant h
  exact ⟨bytes, hcontent, folder, name, hfinds.located, rfl,
    get?_insert tree (List.cons_ne_nil name folder) _⟩

/-- **A call that fails has done nothing**, if it found nothing at its temporary name. -/
theorem run_error_of_vacant {pid : Int} {now : Binary64}
    (vacant : TemporaryIsVacant w.path pid now tree)
    (h : w.run pid now tree = (.error failure, after)) : after = tree := by
  rcases named : temporaryName w.path pid now with cause | temporary
  · simp [run, named] at h
    exact h.2.symm
  have nothing := vacant temporary named
  rcases hcreate : tree.create temporary with fault | ⟨place, opened⟩
  · rw [run_of_closed named hcreate, cleanUp_vacant nothing] at h
    cases h
    rfl
  obtain ⟨folder, name, _, opens, free, rfl, rfl⟩ := create_eq_ok_iff.1 hcreate
  rcases run_of_opened named opens free with ⟨_, hfails⟩ | ⟨_, _, _, _, hsucceeds⟩
  · rw [cleanUp_inserted (nothing.finds opens).2] at hfails
    cases hfails.symm.trans h
    rfl
  · cases hsucceeds.symm.trans h

/-- The result tells of a success. -/
theorem exists_run_eq_ok {pid : Int} {now : Binary64} (h : (w.run pid now tree).1.isOk = true) :
    ∃ after, w.run pid now tree = (.ok (), after) := by
  rcases hrun : w.run pid now tree with ⟨failure | _, after⟩
  · rw [hrun] at h
    cases h
  · exact ⟨after, rfl⟩

/-! ## All or nothing -/

/-- **A file is replaced, or nothing is changed**, if nothing stands at the temporary name.  After a
failure of any kind the tree is the one before; after a success the entry of the path is a file with
the encoded text, and nothing is left at the temporary name. -/
theorem run_allOrNothing (w : AtomicWrite) (pid : Int) (now : Binary64) (tree : FileTree)
    (vacant : TemporaryIsVacant w.path pid now tree) :
    (∀ failure after, w.run pid now tree = (.error failure, after) → after = tree) ∧
      ∀ after, w.run pid now tree = (.ok (), after) →
        ∃ bytes, w.content = .ok bytes ∧ tree.IsReplaced w.path bytes after ∧
          TemporaryIsVacant w.path pid now after := by
  refine ⟨fun failure after hrun => run_error_of_vacant vacant hrun, fun after hrun => ?_⟩
  obtain ⟨folder, name, suffix, _, bytes, htemporary, hsuffix, hbeside, hfinds, _, hcontent, rfl⟩ :=
    run_ok_of_vacant vacant hrun
  refine ⟨bytes, hcontent, ⟨folder, name, hfinds.located, rfl,
    get?_insert tree (List.cons_ne_nil name folder) _⟩, fun temporary h => ?_⟩
  refine (vacant temporary h).insert_file fun slash hlocated => hsuffix ?_
  obtain rfl := Except.ok.inj (htemporary.symm.trans h)
  simpa using congrArg Spot.name (Except.ok.inj (hlocated.symm.trans hbeside.located))

/-- A link to a directory is replaced by a file, and the directory keeps what is in it. -/
theorem run_allOrNothing_link :
    let w : AtomicWrite := ⟨"b".toList, "é".toList, "latin-1".toList⟩
    TemporaryIsVacant w.path 7 .zero linkedTree ∧
      ∃ after bytes, w.run 7 .zero linkedTree = (.ok (), after) ∧
        linkedTree.IsReplaced w.path bytes after := by
  intro w
  have vacant : TemporaryIsVacant "b".toList 7 .zero linkedTree := by decide +kernel
  have succeeds : (run ⟨"b".toList, "é".toList, "latin-1".toList⟩ 7 .zero linkedTree).1.isOk
      = true := by decide +kernel
  obtain ⟨after, hrun⟩ := exists_run_eq_ok succeeds
  obtain ⟨bytes, _, replaced, _⟩ := (run_allOrNothing w 7 .zero linkedTree vacant).2 after hrun
  exact ⟨vacant, after, bytes, hrun, replaced⟩

end AtomicWrite

end ModuleRoster
