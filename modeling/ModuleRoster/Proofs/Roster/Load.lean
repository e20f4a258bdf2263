import ModuleRoster.Proofs.AtomicWrite.ReadBack
import ModuleRoster.Proofs.Encoding.Utf8Fault

/-!
# Proofs/Roster/Load — which files a set is loaded from

A set is loaded from every file whose bytes encode a text, with the names of that text, and from no
other file: the failure then is the first fault of the bytes (`load_locatesFault`).
-/

namespace ModuleRoster.ModuleSet

/-- **Loading accepts UTF-8, and no other bytes.**  From the encoding of a text it gives the set of
the text; of bytes that encode no text it gives the first fault. -/
theorem load_locatesFault {tree : FileTree} {path : Text} {bytes : Bytes}
    (hread : tree.read path = .ok bytes) :
    (∀ t, bytes = Utf8.encode t → load tree path = .ok (parse t)) ∧
      ((∀ t, bytes ≠ Utf8.encode t) →
        ∃ f, load tree path = .error (.undecodable f) ∧ Utf8.IsFirstFault bytes f) := by
  refine ⟨fun t ht => load_of_read (ht ▸ hread), fun strange => ?_⟩
  obtain ⟨f, hdecode, isFirst⟩ := Utf8.exists_fault strange
  exact ⟨f, by simp only [load, hread, hdecode], isFirst⟩

/-- A character of three bytes is cut short by a line feed. -/
theorem load_locatesFault_cut :
    let bytes : Bytes := [0xC3, 0xA9, 0xE2, 0x82, 0x0A]
    let tree : FileTree := ⟨[(["f".toList], .file bytes)]⟩
    tree.read "f".toList = .ok bytes ∧ (∀ t, bytes ≠ Utf8.encode t) ∧
      load tree "f".toList = .error (.undecodable ⟨2, [0xE2, 0x82], .badContinuation⟩) ∧
      Utf8.IsFirstFault bytes ⟨2, [0xE2, 0x82], .badContinuation⟩ := by
  intro bytes tree
  have hread : tree.read "f".toList = .ok bytes := rfl
  have hdecode : Utf8.decode bytes = .error ⟨2, [0xE2, 0x82], .badContinuation⟩ := rfl
  have strange : ∀ t, bytes ≠ Utf8.encode t := by
    intro t ht
    rw [ht, Utf8.decode_encode] at hdecode
    cases hdecode
  obtain ⟨f, hload, isFirst⟩ := (load_locatesFault hread).2 strange
  have hf : load tree "f".toList = .error (.undecodable ⟨2, [0xE2, 0x82], .badContinuation⟩) := by
    simp only [load, hread, hdecode]
  cases hload.symm.trans hf
  exact ⟨hread, strange, hf, isFirst⟩

end ModuleRoster.ModuleSet
