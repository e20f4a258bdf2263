import ModuleRoster.Proofs.Roster.Listing
import ModuleRoster.Proofs.Roster.Sorted

/-!
# Proofs/Roster/Relisted — listing what was read from a list

A set is written as the same text whichever order its names are handed over in
(`isWrittenAs_listText`).  If the public names of a registry are clean and none is there twice, the
list that is written of it is read as a set with the names of the listing (`perm_parse_listText`),
so this set is written as the same list again (`isWrittenAs_parse_listText`).  The names that were
read from a text are always such names (`isClean_of_mem_parse`).
-/

namespace ModuleRoster

namespace ModuleSet

variable {s : ModuleSet} {registry : Registry} {n t text : Text}

/-- **A set is written as a text**, on every machine and whichever order its names are handed over
in. -/
def IsWrittenAs (s : ModuleSet) (text : Text) : Prop :=
  ∀ (host : Host) (order : Registry), order.Perm s.names →
    (listPublic host (some order)).1.map Text.unlines = .ok text

/-- A set is written as the listing of its names. -/
theorem isWrittenAs_listText (h : s.names.Perm registry) : s.IsWrittenAs registry.listText := by
  intro host order horder
  rw [listPublic_of_perm (horder.trans h)]
  rfl

theorem isClean_of_mem_parse (h : n ∈ parse t) : Text.IsClean n :=
  isClean_of_mem_namesIn (mem_parse.1 h)

section

variable (nodup : (registry.filter isPublic).Nodup)
  (clean : ∀ n ∈ registry, isPublic n = true → Text.IsClean n)
include nodup clean

/-- **The list is read as the names of the listing.** -/
theorem perm_parse_listText : (parse registry.listText).names.Perm registry.listing := by
  have hnodup : registry.listing.Nodup := (Text.perm_sort _).nodup_iff.2 nodup
  have hperm := perm_dedup registry.listing
  rw [hnodup.dedup] at hperm
  -- each clean name is read from its line as it is, and no other name is read from there
  rwa [Registry.parse_listText_eq_iff.2 clean]

/-- **The set that is read from the list is written as the list.** -/
theorem isWrittenAs_parse_listText :
    (parse registry.listText).IsWrittenAs registry.listText := by
  have hlist : Registry.listText registry.listing = registry.listText :=
    congrArg Text.unlines registry.listing_listing
  have hwritten := isWrittenAs_listText (perm_parse_listText nodup clean)
  rwa [hlist] at hwritten

end

/-- **What was read from any text is written as a list that is read as its public names**, and that
is written in the same way again. -/
theorem exists_isWrittenAs_parse (t : Text) : ∃ g, (parse t).IsWrittenAs g ∧
    (∀ n, n ∈ parse g ↔ n ∈ parse t ∧ n.head? ≠ some '_') ∧ (parse g).IsWrittenAs g := by
  have nodup : ((parse t).names.filter isPublic).Nodup := (nodup_names _).filter _
  have clean : ∀ n ∈ (parse t).names, isPublic n = true → Text.IsClean n :=
    fun _ hn _ => isClean_of_mem_parse hn
  refine ⟨Registry.listText (parse t).names, isWrittenAs_listText (List.Perm.refl _), fun n => ?_,
    isWrittenAs_parse_listText nodup clean⟩
  rw [Registry.parse_listText_eq_iff.2 clean, mem_ofList, Registry.mem_listing]
  exact and_congr_right fun _ => by simp [isPublic]

end ModuleSet

end ModuleRoster
