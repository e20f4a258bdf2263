import ModuleRoster.Proofs.AtomicWrite.AllOrNothing
import ModuleRoster.Proofs.Encoding.OneByte
import ModuleRoster.Proofs.Encoding.Utf8
import ModuleRoster.Proofs.FileTree.Moved
import ModuleRoster.Proofs.FileTree.Replaced
import ModuleRoster.Proofs.Roster.Parse
import ModuleRoster.Roster.Listing

/-!
# Proofs/AtomicWrite/ReadBack — loading what was written

A set is loaded from UTF-8, so it is that of the written text if the bytes are those of UTF-8
(`content_eq_encode`, `content_eq_encode_mark`).  What is read after a call that succeeds is always
the content (`content_of_read_of_run`), but it need not be read at all: the path may no longer lead
to the file.  If nothing stood at the temporary name, `load_of_run` has the condition.
-/

namespace ModuleRoster

open FileTree

/-! ## What is loaded -/

/-- **A set is loaded from a file in UTF-8**, with the names of its text. -/
theorem ModuleSet.load_eq_ok_iff {tree : FileTree} {path : Text} {s : ModuleSet} :
    load tree path = .ok s ↔
      ∃ bytes t, tree.read path = .ok bytes ∧ Utf8.decode bytes = .ok t ∧ s = parse t := by
  unfold load
  rcases tree.read path with fault | bytes
  · simp
  · rcases hdecode : Utf8.decode bytes with fault | t <;> simp [hdecode, parse_unifyBreaks, eq_comm]

/-- A file with the bytes of a text has the names of the text. -/
theorem ModuleSet.load_of_read {tree : FileTree} {path t : Text}
    (h : tree.read path = .ok (Utf8.encode t)) : load tree path = .ok (parse t) :=
  load_eq_ok_iff.2 ⟨_, t, h, Utf8.decode_encode t, rfl⟩

/-- What cannot be read cannot be loaded. -/
theorem ModuleSet.load_of_fault {tree : FileTree} {path : Text} {fault : PathFault}
    (h : tree.read path = .error fault) : load tree path = .error (.badPath fault path) := by
  rw [load, h]

namespace AtomicWrite

variable {w : AtomicWrite} {pid : Int} {now : Binary64} {tree after : FileTree} {bytes : Bytes}

/-! ## What is written -/

theorem content_eq_ok_iff {encoding : Encoding}
    (named : Encoding.ofName? w.encoding = some encoding) :
    w.content = .ok bytes ↔ encoding.encode w.text = .ok bytes := by
  rw [content_of_known named]
  rcases encoding.encode w.text with fault | bytes <;> simp [Except.mapError]

/-- **UTF-8 and ASCII write the bytes of UTF-8.** -/
theorem content_eq_encode (h : w.content = .ok bytes)
    (plain : Encoding.ofName? w.encoding = some (.utf8 false) ∨
      Encoding.ofName? w.encoding = some (.oneByte .ascii)) : bytes = Utf8.encode w.text := by
  rcases plain with plain | plain
  · cases (content_eq_ok_iff plain).1 h
    rfl
  · obtain ⟨held, rfl⟩ := OneByte.encode_eq_ok_iff.1 ((content_eq_ok_iff plain).1 h)
    exact (Utf8.encode_eq_map_of_ascii held).symm

/-- The marked form writes the mark in front. -/
theorem content_eq_encode_mark (h : w.content = .ok bytes)
    (marked : Encoding.ofName? w.encoding = some (.utf8 true)) :
    bytes = Utf8.encode (Encoding.mark :: w.text) := by
  cases (content_eq_ok_iff marked).1 h
  rfl

/-! ## Whatever stood at the temporary name

The temporary file may also be one that was there, or one behind a link, and then it is the link
that is moved. -/

/-- **What is read after a call that succeeds is the content**, if a file is read at all. -/
theorem content_of_read_of_run {found : Bytes} (h : w.run pid now tree = (.ok (), after))
    (hread : after.read w.path = .ok found) : w.content = .ok found := by
  obtain ⟨suffix, goalFolder, goalName, _, bytes, _, noSlash, hyphen, hcontent, hfinds, free,
    hrename⟩ := steps_of_run h
  have hmade : (tree.insert (goalName :: goalFolder) (.file bytes)).Finds .creating
      (w.path ++ suffix) goalFolder goalName (some (.file bytes)) := hfinds.insert_file free
  generalize tree.insert (goalName :: goalFolder) (.file bytes) = written at hmade hrename
  obtain ⟨folder, _, entry, _, name, replaced, hsource, noDirectory, htarget, _, rfl⟩ :=
    rename_eq_ok_iff.1 hrename
  -- the temporary name is beside the path
  have hbeside :=
    locate_append htarget.located (locate_eq_ok_iff.1 hmade.located).1 noSlash hyphen
  cases hbeside.symm.trans hsource.located
  suffices found = bytes by rw [this, hcontent]
  match entry, noDirectory with
  | .directory, noDirectory => exact absurd rfl noDirectory
  | .file moved, _ =>
      have hmoved : written.Finds .creating (w.path ++ suffix) folder (name ++ suffix)
          (some (.file moved)) := hsource.of_entry nofun
      cases hmoved.located.symm.trans hmade.located
      cases hmoved.found.symm.trans hmade.found
      have ways : written.HasWays ((written.erase ((name ++ suffix) :: goalFolder)).insert
          (name :: goalFolder) (.file bytes)) := hasWays_of_move_file nofun nofun
      refine content_of_read_file ways htarget ?_ hread
      rw [get?_insert _ (List.cons_ne_nil _ _), if_pos rfl]
  | .link target, _ =>
      have moved := linkIsMoved_of_get? (List.cons_ne_nil _ _) (List.cons_ne_nil name folder)
        (beside_ne folder (List.ne_nil_of_mem hyphen)) (find_eq_ok_iff.1 hsource.found).2
      exact moved.content_of_read htarget (find_eq_ok_iff.1 hmade.found).2
        (hsource.leads_of_link hmade) hread

/-! ## Written, then loaded -/

/-- **What a call that succeeds leaves to be read**, if it found nothing at its temporary name: the
content, or a fault if the path goes through its own entry. -/
theorem read_of_run (vacant : TemporaryIsVacant w.path pid now tree)
    (h : w.run pid now tree = (.ok (), after)) : ∃ bytes, w.content = .ok bytes ∧
      (tree.AvoidsItself w.path → after.read w.path = .ok bytes) ∧
      (¬tree.AvoidsItself w.path → after.read w.path = .error .notDirectory) := by
  obtain ⟨folder, name, _, replaced, bytes, _, _, _, hfinds, noDirectory, hcontent, rfl⟩ :=
    run_ok_of_vacant vacant h
  exact ⟨bytes, hcontent, read_insert_file hfinds, read_insert_file_blocked hfinds noDirectory⟩

/-- **Only a link can lead a path through its own entry**, when a call has succeeded there. -/
theorem entryAt?_of_through (vacant : TemporaryIsVacant w.path pid now tree)
    (h : w.run pid now tree = (.ok (), after)) (through : ¬tree.AvoidsItself w.path) :
    ∃ target, tree.entryAt? w.path = some (.link target) := by
  obtain ⟨folder, name, _, replaced, _, _, _, _, hfinds, noDirectory, _, _⟩ :=
    run_ok_of_vacant vacant h
  rw [hfinds.entryAt?]
  refine Classical.byContradiction fun noLink => through ?_
  exact avoidsItself_of_noLink hfinds noDirectory fun target htarget => noLink ⟨target, htarget⟩

/-- The set of a text in UTF-8 or ASCII is loaded, or the path is blocked. -/
theorem load_of_run_plain (vacant : TemporaryIsVacant w.path pid now tree)
    (h : w.run pid now tree = (.ok (), after))
    (plain : Encoding.ofName? w.encoding = some (.utf8 false) ∨
      Encoding.ofName? w.encoding = some (.oneByte .ascii)) :
    (tree.AvoidsItself w.path → ModuleSet.load after w.path = .ok (.parse w.text)) ∧
      (¬tree.AvoidsItself w.path →
        ModuleSet.load after w.path = .error (.badPath .notDirectory w.path)) := by
  obtain ⟨bytes, hcontent, hread, hblocked⟩ := read_of_run vacant h
  obtain rfl := content_eq_encode hcontent plain
  exact ⟨fun avoids => ModuleSet.load_of_read (hread avoids),
    fun through => ModuleSet.load_of_fault (hblocked through)⟩

/-- So it is loaded just if the path does not go through its own entry. -/
theorem exists_load_iff_of_run_plain (vacant : TemporaryIsVacant w.path pid now tree)
    (h : w.run pid now tree = (.ok (), after))
    (plain : Encoding.ofName? w.encoding = some (.utf8 false) ∨
      Encoding.ofName? w.encoding = some (.oneByte .ascii)) :
    (∃ s, ModuleSet.load after w.path = .ok s) ↔ tree.AvoidsItself w.path := by
  obtain ⟨hloaded, hblocked⟩ := load_of_run_plain vacant h plain
  refine ⟨fun ⟨s, hs⟩ => ?_, fun avoids => ⟨_, hloaded avoids⟩⟩
  by_contra through
  cases hs.symm.trans (hblocked through)

/-- **What was written is loaded.**  Decoding undoes encoding, and the reader's line breaks change
no set.  So a set that is written in UTF-8 or in ASCII is loaded from the same path, and the mark is
loaded with it; unless the path goes through its own entry, a link, and the file now blocks it. -/
theorem load_of_run (w : AtomicWrite) (pid : Int) (now : Binary64) (tree : FileTree) :
    Utf8.decode (Utf8.encode w.text) = .ok w.text ∧
      ModuleSet.parse (Text.unifyBreaks w.text) = .parse w.text ∧
      (TemporaryIsVacant w.path pid now tree →
        ∀ after, w.run pid now tree = (.ok (), after) →
          (tree.AvoidsItself w.path →
            (Encoding.ofName? w.encoding = some (.utf8 false) ∨
              Encoding.ofName? w.encoding = some (.oneByte .ascii) →
                ModuleSet.load after w.path = .ok (.parse w.text)) ∧
            (Encoding.ofName? w.encoding = some (.utf8 true) →
              ModuleSet.load after w.path = .ok (.parse (Encoding.mark :: w.text)))) ∧
          (¬tree.AvoidsItself w.path →
            (∃ target, tree.entryAt? w.path = some (.link target)) ∧
              ModuleSet.load after w.path = .error (.badPath .notDirectory w.path))) := by
  refine ⟨Utf8.decode_encode _, ModuleSet.parse_unifyBreaks _, fun vacant after hrun => ?_⟩
  obtain ⟨bytes, hcontent, hread, hblocked⟩ := read_of_run vacant hrun
  refine ⟨fun avoids => ⟨fun plain => ?_, fun marked => ?_⟩, fun through => ?_⟩
  · exact (load_of_run_plain vacant hrun plain).1 avoids
  · obtain rfl := content_eq_encode_mark hcontent marked
    exact ModuleSet.load_of_read (hread avoids)
  · exact ⟨entryAt?_of_through vacant hrun through, ModuleSet.load_of_fault (hblocked through)⟩

/-- A text with mixed line breaks, written through a link to a directory. -/
theorem load_of_run_link :
    let w : AtomicWrite := ⟨"b".toList, "os\r\nä\rre".toList, "UTF8".toList⟩
    TemporaryIsVacant w.path 7 .zero linkedTree ∧
      ∃ after, w.run 7 .zero linkedTree = (.ok (), after) ∧
        ModuleSet.load after w.path = .ok (.parse w.text) := by
  intro w
  have vacant : TemporaryIsVacant "b".toList 7 .zero linkedTree := by decide +kernel
  have avoids : linkedTree.AvoidsItself "b".toList := by decide +kernel
  have plain : Encoding.ofName? "UTF8".toList = some (.utf8 false) := by decide +kernel
  have succeeds : (run ⟨"b".toList, "os\r\nä\rre".toList, "UTF8".toList⟩ 7 .zero linkedTree).1.isOk
      = true := by decide +kernel
  obtain ⟨after, hrun⟩ := exists_run_eq_ok succeeds
  obtain ⟨hload, _⟩ := (load_of_run w 7 .zero linkedTree).2.2 vacant after hrun
  exact ⟨vacant, after, hrun, (hload avoids).1 (Or.inl plain)⟩

/-- **A path that goes through its own entry** can be written and not be loaded. -/
theorem not_load_of_run_through_itself :
    TemporaryIsVacant "b/../b".toList 7 .zero linkedTree ∧
      Encoding.ofName? "utf-8".toList = some (.utf8 false) ∧
      (run ⟨"b/../b".toList, "os".toList, "utf-8".toList⟩ 7 .zero linkedTree).1.isOk = true ∧
      (ModuleSet.load (run ⟨"b/../b".toList, "os".toList, "utf-8".toList⟩ 7 .zero linkedTree).2
        "b/../b".toList).isOk = false := by
  decide +kernel

end AtomicWrite

end ModuleRoster
