import ModuleRoster.Proofs.AtomicWrite.Determined
import ModuleRoster.Proofs.Encoding.FirstRun

/-!
# Proofs/AtomicWrite/Refusal — what a refused call tells about its text

A call that opens its temporary file and cannot write its text in a one-byte set is refused, and
what it is refused with is the first whole run of characters that the set does not hold
(`run_tellsFirstRun`).  Tidying up afterwards changes nothing in this.
-/

namespace ModuleRoster.AtomicWrite

open FileTree

/-- **A refused call tells the first whole run beyond the limit of its character set**: the fault
has the run with its position, and the words show a single character or the positions of more.  And
once its temporary file is open, a call is refused for every text with such a run. -/
theorem run_tellsFirstRun (charset : OneByte) (c : Call) (tree : FileTree)
    (named : Encoding.ofName? c.write.encoding = some (.oneByte charset)) :
    (∀ fault, (c.write.run c.pid c.now tree).1 = .error (.unencodable fault) →
      ∃ i j, fault = ⟨charset, i, (c.write.text.drop i).take (j - i)⟩ ∧
        IsFirstRun charset.limit c.write.text i j ∧
        charset.IsTold c.write.text i j (Failure.unencodable fault).message) ∧
    ∀ temporary, temporaryName c.write.path c.pid c.now = .ok temporary →
      (tree.create temporary).isOk = true → (∃ d ∈ c.write.text, charset.limit ≤ d.toNat) →
        ∃ fault, (c.write.run c.pid c.now tree).1 = .error (.unencodable fault) := by
  refine ⟨fun fault h => ?_, fun temporary htemporary opens beyond => ?_⟩
  · exact OneByte.exists_isFirstRun_of_encode
      ((content_eq_unencodable_iff named).1 (content_of_refused h))
  · refine Call.exists_run_of_lacks named htemporary opens ?_
    exact Encoding.exists_encode_eq_error_iff.1 (OneByte.exists_encode_eq_error_iff.2 beyond)

/-- A run of two characters in the middle of a text, and a single one at the end. -/
theorem run_tellsFirstRun_two :
    let c : Call := ⟨⟨"b".toList, "a😀éaé".toList, "ascii".toList⟩, 7, .zero⟩
    let c' : Call := ⟨⟨"b".toList, "éa€".toList, "L1".toList⟩, 7, .zero⟩
    (∃ fault, (c.write.run c.pid c.now linkedTree).1 = .error (.unencodable fault) ∧
      fault.message = ("'ascii' codec can't encode characters in position 1-2: " ++
        "ordinal not in range(128)").toList) ∧
    ∃ fault, (c'.write.run c'.pid c'.now linkedTree).1 = .error (.unencodable fault) ∧
      fault.message = ("'latin-1' codec can't encode character '\\u20ac' in position 2: " ++
        "ordinal not in range(256)").toList := by
  intro c c'
  have run : IsFirstRun 128 ("a".toList ++ "😀é".toList ++ "aé".toList) 1 3 :=
    isFirstRun_append (by simp) (by simp) (by decide) (by simp)
  have run' : IsFirstRun 256 ("éa".toList ++ "€".toList ++ []) 2 3 :=
    isFirstRun_append (by simp) (by simp) (by decide) (by simp)
  obtain ⟨tells, refuses⟩ := run_tellsFirstRun .ascii c linkedTree (by decide +kernel)
  obtain ⟨tells', refuses'⟩ := run_tellsFirstRun .latin1 c' linkedTree (by decide +kernel)
  obtain ⟨fault, refused⟩ := refuses "b-7-0".toList (by decide +kernel) (by decide +kernel)
    ⟨'é', by decide, by decide⟩
  obtain ⟨fault', refused'⟩ := refuses' "b-7-0".toList (by decide +kernel) (by decide +kernel)
    ⟨'€', by decide, by decide⟩
  -- the positions are not computed from the fault: there is only one first run
  obtain ⟨i, j, -, first, told⟩ := tells fault refused
  obtain ⟨i', j', hfault, first', told'⟩ := tells' fault' refused'
  obtain ⟨rfl, rfl⟩ := first.unique run
  obtain ⟨rfl, rfl⟩ := first'.unique run'
  refine ⟨⟨fault, refused, (told.several (by decide)).trans (by decide +kernel)⟩,
    fault', refused', ?_⟩
  rw [hfault]
  decide +kernel

end ModuleRoster.AtomicWrite
