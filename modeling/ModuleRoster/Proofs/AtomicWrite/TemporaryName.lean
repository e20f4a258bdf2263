import ModuleRoster.AtomicWrite
import ModuleRoster.Proofs.FileTree.Vacant

/-!
# Proofs/AtomicWrite/TemporaryName — the name that a new content is written under

The temporary name is the path with hyphens and numerals put behind it (`temporaryName_eq_append`),
so it has no slash that the path does not have.  `TemporaryIsVacant` says that a call finds nothing
there.
-/

namespace ModuleRoster

theorem Text.eq_hyphen_or_isDigit_of_mem_ofInt {c : Char} :
    ∀ {i : Int}, c ∈ Text.ofInt i → c = '-' ∨ c.isDigit = true
  | .ofNat _, h => Or.inr (Nat.isDigit_of_mem_toDigits (by decide) (by decide) h)
  | .negSucc _, h => by
      rcases List.mem_cons.1 h with h | h
      · exact Or.inl h
      · exact Or.inr (Nat.isDigit_of_mem_toDigits (by decide) (by decide) h)

/-- A numeral has no slash. -/
theorem Text.noSlash_ofInt (i : Int) : '/' ∉ Text.ofInt i := fun h => by
  have := Text.eq_hyphen_or_isDigit_of_mem_ofInt h
  simp [Char.isDigit] at this

/-- **The temporary name is the path, with a text behind it that has a hyphen and no slash.** -/
theorem temporaryName_eq_append {path temporary : Text} {pid : Int} {now : Binary64}
    (h : temporaryName path pid now = .ok temporary) :
    ∃ suffix, temporary = path ++ suffix ∧ '/' ∉ suffix ∧ '-' ∈ suffix := by
  unfold temporaryName at h
  rcases hns : (now.scale 1000000000).truncate with cause | ns
  · rw [hns] at h
    cases h
  · rw [hns] at h
    cases h
    refine ⟨'-' :: Text.ofInt pid ++ '-' :: Text.ofInt ns, by simp, ?_, by simp⟩
    simp [Text.noSlash_ofInt]

/-- **A call**: what is to be written, and the process and the time that are in the temporary
name. -/
structure Call where
  write : AtomicWrite
  pid : Int
  now : Binary64

/-- The temporary name of a call, if the clock gives it one. -/
def Call.temporaryName? (c : Call) : Option Text :=
  (temporaryName c.write.path c.pid c.now).toOption

/-- **Nothing stands at the temporary name of a call**, if the clock gives it one. -/
def TemporaryIsVacant (path : Text) (pid : Int) (now : Binary64) (tree : FileTree) : Prop :=
  ∀ temporary, temporaryName path pid now = .ok temporary → tree.IsVacant temporary

instance (path : Text) (pid : Int) (now : Binary64) (tree : FileTree) :
    Decidable (TemporaryIsVacant path pid now tree) :=
  match h : temporaryName path pid now with
  | .error _ => isTrue fun _ h' => nomatch h.symm.trans h'
  | .ok temporary => decidable_of_iff (tree.IsVacant temporary)
      ⟨fun vacant _ h' => Except.ok.inj (h.symm.trans h') ▸ vacant, fun vacant => vacant _ h⟩

end ModuleRoster
