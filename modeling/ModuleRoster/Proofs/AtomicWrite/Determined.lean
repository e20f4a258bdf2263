import ModuleRoster.Proofs.AtomicWrite.Causes
import ModuleRoster.Proofs.AtomicWrite.ReadBack
import ModuleRoster.Proofs.Encoding.Injective
import ModuleRoster.Proofs.FileTree.Named

/-!
# Proofs/AtomicWrite/Determined — what is written tells the text

`Call.Shows` are the bytes that are found after a call, by reading its path or at its entry.  They
are the content of the call (`Call.Shows.content`), and the content tells the text, since every
encoding is injective.  Which texts have a content is told by `Encoding.Lacks`, and once its temporary
file is open a call is refused exactly for the texts that have none.
-/

namespace ModuleRoster

open FileTree AtomicWrite

variable {c : Call} {tree after : FileTree} {bytes : Bytes} {encoding : Encoding}

/-! ## What is shown -/

/-- **A call succeeds and shows bytes**: they are read at its path, or they are the file at the entry
that the path named before the call. -/
def Call.Shows (c : Call) (tree : FileTree) (bytes : Bytes) : Prop :=
  ∃ after, c.write.run c.pid c.now tree = (.ok (), after) ∧
    (after.read c.write.path = .ok bytes ∨
      ∃ place, tree.Names c.write.path place ∧ after.get? place = some (.file bytes))

/-- **A file at the entry of the path is the one that was written.** -/
theorem AtomicWrite.content_of_get?_of_run {w : AtomicWrite} {pid : Int} {now : Binary64}
    {place : Place} (h : w.run pid now tree = (.ok (), after)) (hplace : tree.Names w.path place)
    (hget : after.get? place = some (.file bytes)) : w.content = .ok bytes := by
  obtain ⟨suffix, folder, name, old, written, _, _, _, hcontent, opens, free, hrename⟩ :=
    steps_of_run h
  have hmade : (tree.insert (name :: folder) (.file written)).Finds .creating (w.path ++ suffix)
      folder name (some (.file written)) := opens.insert_file free
  obtain ⟨sourceFolder, sourceName, moved, base, last, _, hsource, _, htarget, _, rfl⟩ :=
    rename_eq_ok_iff.1 hrename
  -- the file that was made does not change what the path names
  have ways : (tree.insert (name :: folder) (.file written)).HasWays tree :=
    hasWays_insert_file nofun (by rwa [(find_eq_ok_iff.1 opens.found).2])
  obtain rfl := (hplace.mono ways).unique htarget.names
  rw [get?_insert _ (List.cons_ne_nil last base), if_pos rfl] at hget
  obtain rfl := Option.some.inj hget
  have hsource' : (tree.insert (name :: folder) (.file written)).Finds .creating (w.path ++ suffix)
      sourceFolder sourceName (some (.file bytes)) := hsource.of_entry nofun
  cases hsource'.located.symm.trans hmade.located
  cases hsource'.found.symm.trans hmade.found
  exact hcontent

/-- **What a call shows is its content.** -/
theorem Call.Shows.content (h : c.Shows tree bytes) : c.write.content = .ok bytes := by
  obtain ⟨after, hrun, hread | ⟨place, hplace, hget⟩⟩ := h
  · exact content_of_read_of_run hrun hread
  · exact content_of_get?_of_run hrun hplace hget

/-- **A call that succeeds shows its content**, if it found nothing at its temporary name. -/
theorem Call.shows_of_run (vacant : TemporaryIsVacant c.write.path c.pid c.now tree)
    (h : c.write.run c.pid c.now tree = (.ok (), after)) :
    ∃ bytes, c.write.content = .ok bytes ∧ c.Shows tree bytes := by
  obtain ⟨folder, name, _, _, bytes, _, _, _, hfinds, _, hcontent, rfl⟩ := run_ok_of_vacant vacant h
  refine ⟨bytes, hcontent, _, h, Or.inr ⟨name :: folder, hfinds.names, ?_⟩⟩
  rw [get?_insert tree (List.cons_ne_nil name folder), if_pos rfl]

/-! ## What is refused -/

/-- A text is refused by its encoding. -/
theorem AtomicWrite.content_eq_unencodable_iff {w : AtomicWrite} {fault : OneByte.Fault}
    (named : Encoding.ofName? w.encoding = some encoding) :
    w.content = .error (.unencodable fault) ↔ encoding.encode w.text = .error fault := by
  rw [content_of_known named]
  rcases encoding.encode w.text with fault' | bytes <;> simp [Except.mapError]

/-- Tidying up ends in the failure that it is for, or in one of the temporary name. -/
theorem AtomicWrite.cleanUp_fst_cases (temporary : Text) (failure : Failure) (tree : FileTree) :
    (cleanUp temporary failure tree).1 = .error failure ∨
      ∃ fault, (cleanUp temporary failure tree).1 = .error (.badPath fault temporary) := by
  rw [cleanUp]
  split
  · rcases tree.remove temporary with fault | cleared
    · exact Or.inr ⟨fault, rfl⟩
    · exact Or.inl rfl
  · exact Or.inl rfl

/-- **A call is refused only for its content.** -/
theorem AtomicWrite.content_of_refused {w : AtomicWrite} {pid : Int} {now : Binary64}
    {fault : OneByte.Fault} (h : (w.run pid now tree).1 = .error (.unencodable fault)) :
    w.content = .error (.unencodable fault) := by
  rcases htemporary : temporaryName w.path pid now with cause | temporary
  · simp [AtomicWrite.run, htemporary] at h
  rcases hcreate : tree.create temporary with closed | ⟨place, opened⟩
  · rw [run_of_closed htemporary hcreate] at h
    rcases cleanUp_fst_cases temporary (.badPath closed temporary) tree with h' | ⟨_, h'⟩
    · cases h'.symm.trans h
    · cases h'.symm.trans h
  obtain ⟨folder, name, _, opens, free, rfl, rfl⟩ := create_eq_ok_iff.1 hcreate
  rw [run_fst_of_opened opens free htemporary] at h
  rcases hcontent : w.content with failure | bytes
  · simpa [hcontent, Except.bind] using h
  · rcases hrename : (tree.insert (name :: folder) (.file bytes)).rename temporary w.path <;>
      simp [hcontent, hrename, Except.bind, Except.map, Except.mapError] at h

namespace Call

variable (named : Encoding.ofName? c.write.encoding = some encoding)
include named

/-- **A call is refused only for a text that the encoding lacks.** -/
theorem lacks_of_run {fault : OneByte.Fault}
    (h : (c.write.run c.pid c.now tree).1 = .error (.unencodable fault)) :
    encoding.Lacks c.write.text :=
  Encoding.exists_encode_eq_error_iff.1
    ⟨fault, (content_eq_unencodable_iff named).1 (content_of_refused h)⟩

/-- **A call that opens its temporary file is refused for every text that the encoding lacks.** -/
theorem exists_run_of_lacks {temporary : Text}
    (htemporary : temporaryName c.write.path c.pid c.now = .ok temporary)
    (opens : (tree.create temporary).isOk = true) (lacks : encoding.Lacks c.write.text) :
    ∃ fault, (c.write.run c.pid c.now tree).1 = .error (.unencodable fault) := by
  obtain ⟨fault, hfault⟩ := Encoding.exists_encode_eq_error_iff.2 lacks
  rcases hcreate : tree.create temporary with closed | ⟨place, opened⟩
  · simp [hcreate, Except.isOk, Except.toBool] at opens
  obtain ⟨folder, name, _, opens, free, rfl, rfl⟩ := create_eq_ok_iff.1 hcreate
  refine ⟨fault, ?_⟩
  rw [run_fst_of_opened opens free htemporary, (content_eq_unencodable_iff named).2 hfault]
  rfl

end Call

/-! ## Text and bytes -/

/-- **The bytes that a call shows determine its text**, in every encoding and whatever else differs
between two calls; and a call that succeeds does show bytes, if it found nothing at its temporary
name.  A call is refused only for a text that the encoding lacks, and for each of these if it can open
its temporary file. -/
theorem AtomicWrite.text_determined (encoding : Encoding) (c : Call) (tree : FileTree)
    (named : Encoding.ofName? c.write.encoding = some encoding) :
    (∀ (c' : Call) (tree' : FileTree) (bytes : Bytes),
      Encoding.ofName? c'.write.encoding = some encoding → c.Shows tree bytes →
        c'.Shows tree' bytes → c.write.text = c'.write.text) ∧
    (TemporaryIsVacant c.write.path c.pid c.now tree →
      (c.write.run c.pid c.now tree).1 = .ok () → ∃ bytes, c.Shows tree bytes) ∧
    ((∃ fault, (c.write.run c.pid c.now tree).1 = .error (.unencodable fault)) →
      encoding.Lacks c.write.text) ∧
    ∀ temporary, temporaryName c.write.path c.pid c.now = .ok temporary →
      (tree.create temporary).isOk = true → encoding.Lacks c.write.text →
        ∃ fault, (c.write.run c.pid c.now tree).1 = .error (.unencodable fault) := by
  refine ⟨fun c' tree' bytes named' shows shows' => ?_, fun vacant succeeds => ?_,
    fun ⟨_, h⟩ => Call.lacks_of_run named h,
    fun _ htemporary opens lacks => Call.exists_run_of_lacks named htemporary opens lacks⟩
  · exact Encoding.encode_injective ((content_eq_ok_iff named).1 shows.content)
      ((content_eq_ok_iff named').1 shows'.content)
  · obtain ⟨bytes, _, shows⟩ := c.shows_of_run vacant (Prod.ext succeeds rfl)
    exact ⟨bytes, shows⟩

/-- A text that begins with the mark, in two trees and under two names of an encoding. -/
theorem AtomicWrite.text_determined_mark :
    let c : Call := ⟨⟨"b".toList, "\uFEFF😀".toList, "utf-16".toList⟩, 7, .zero⟩
    let c' : Call := ⟨⟨"a".toList, "\uFEFF😀".toList, "U16".toList⟩, 1, .zero⟩
    let refused : Call := ⟨⟨"b".toList, "é".toList, "ascii".toList⟩, 7, .zero⟩
    (∃ bytes, c.Shows linkedTree bytes ∧ c'.Shows .empty bytes ∧ c.write.text = c'.write.text) ∧
      ∃ fault, (refused.write.run refused.pid refused.now linkedTree).1
        = .error (.unencodable fault) := by
  intro c c' refused
  have vacant : TemporaryIsVacant c.write.path c.pid c.now linkedTree := by decide +kernel
  have vacant' : TemporaryIsVacant c'.write.path c'.pid c'.now .empty := by decide +kernel
  have succeeds : (c.write.run c.pid c.now linkedTree).1.isOk = true := by decide +kernel
  have succeeds' : (c'.write.run c'.pid c'.now .empty).1.isOk = true := by decide +kernel
  obtain ⟨_, hrun⟩ := exists_run_eq_ok succeeds
  obtain ⟨_, hrun'⟩ := exists_run_eq_ok succeeds'
  obtain ⟨bytes, hcontent, shows⟩ := c.shows_of_run vacant hrun
  obtain ⟨bytes', hcontent', shows'⟩ := c'.shows_of_run vacant' hrun'
  have hsame : c.write.content = c'.write.content := by decide +kernel
  obtain rfl : bytes = bytes' := Except.ok.inj (hcontent.symm.trans (hsame.trans hcontent'))
  obtain ⟨determined, -⟩ :=
    text_determined (.utf16 .little true) c linkedTree (by decide +kernel)
  obtain ⟨-, -, -, refuses⟩ :=
    text_determined (.oneByte .ascii) refused linkedTree (by decide +kernel)
  refine ⟨⟨bytes, shows, shows', determined c' .empty bytes (by decide +kernel) shows shows'⟩, ?_⟩
  exact refuses "b-7-0".toList (by decide +kernel) (by decide +kernel) ⟨'é', by decide, by decide⟩

end ModuleRoster
