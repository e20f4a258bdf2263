import Mathlib.Data.List.Dedup
import ModuleRoster.Proofs.Text.Sorted
import ModuleRoster.Roster.Listing

/-!
# Proofs/Roster/Sorted — the listing is the public names in order

The listing is the one sorted list of the public names, so the order in which a registry gives its
names does not show, neither in the listing nor in what is noted of it (`listPublic_of_perm`), and a
listing is listed as itself (`listing_listing`).  `listPublic_sorts` has all of this together.
-/

namespace ModuleRoster

variable {host : Host} {registry order : Registry}

namespace Registry

/-- **A listing is in order.** -/
theorem pairwise_listing (registry : Registry) :
    registry.listing.Pairwise fun m n => ¬Text.Precedes n m :=
  (Text.pairwise_sort _).imp Text.le_iff.1

/-- **The order of a registry does not show in its listing.** -/
theorem listing_of_perm (h : order.Perm registry) : order.listing = registry.listing :=
  Text.sort_eq_of_perm (h.filter _)

/-- Nor does it show in what is noted. -/
theorem entry_of_perm (h : order.Perm registry) : order.entry = registry.entry := by
  rw [entry, entry, listing_of_perm h, h.length_eq]

/-- **A listing is listed as itself.** -/
theorem listing_listing (registry : Registry) :
    Registry.listing registry.listing = registry.listing := by
  have hpublic : registry.listing.filter isPublic = registry.listing := by
    refine List.filter_eq_self.2 fun n hn => ?_
    exact (List.mem_filter.1 ((Text.perm_sort _).mem_iff.1 hn)).2
  rw [listing, hpublic]
  exact Text.sort_of_pairwise (Text.pairwise_sort _)

/-- **The private names are those that the listing leaves out.** -/
theorem countP_private (registry : Registry) :
    registry.length - registry.listing.length
      = registry.countP fun name => name.head? == some '_' := by
  have hlisting : registry.listing.length = registry.countP isPublic := by
    rw [List.countP_eq_length_filter]
    exact (Text.perm_sort _).length_eq
  have hprivate : (fun name => decide ¬isPublic name = true)
      = fun name => name.head? == some '_' := by
    funext name
    rw [Bool.eq_iff_iff]
    simp [isPublic]
  have hsum := List.length_eq_countP_add_countP isPublic (l := registry)
  rw [hprivate] at hsum
  omega

theorem length_listing_le (registry : Registry) : registry.listing.length ≤ registry.length :=
  (Text.perm_sort _).length_eq.trans_le (List.length_filter_le _ _)

end Registry

/-- **The order of a registry does not show at all.** -/
theorem listPublic_of_perm (h : order.Perm registry) :
    listPublic host (some order) = listPublic host (some registry) := by
  simp only [listPublic, Host.registryOr, Registry.listing_of_perm h, Registry.entry_of_perm h]

/-- **A set has no name twice.** -/
theorem ModuleSet.nodup_names (s : ModuleSet) : s.names.Nodup := s.ascending.imp And.right

/-- The set of a list has the names of the list, each once. -/
theorem ModuleSet.perm_dedup (registry : Registry) :
    (ofList registry).names.Perm registry.dedup := by
  refine (List.perm_ext_iff_of_nodup (nodup_names _) registry.nodup_dedup).2 fun n => ?_
  rw [List.mem_dedup]
  exact mem_ofList

/-! ## The listing of a registry -/

/-- The words on a registry. -/
def registryWords (total skipped : Nat) : Text :=
  "registry has ".toList ++ Text.ofInt total ++ " names, ".toList ++ Text.ofInt skipped ++
    " private skipped".toList

/-- **A registry is listed as some names**: they are its names without an underscore in front, each
as often as it is in the registry and in the order of their code points, and a note says how many
names there are and how many of them are left out. -/
structure Registry.IsListedAs (registry : Registry) (names : List Text) (log : List LogEntry) :
    Prop where
  perm : names.Perm (registry.filter fun n => n.head? != some '_')
  ordered : names.Pairwise fun m n => ¬Text.Precedes n m
  strict_iff : names.Pairwise Text.Precedes ↔
    (registry.filter fun n => n.head? != some '_').Nodup
  noted : ∃ skipped, skipped = registry.countP (fun n => n.head? == some '_') ∧
    registry.length - skipped = names.length ∧ skipped ≤ registry.length ∧
    log.map LogEntry.message = [registryWords registry.length skipped]

theorem Registry.isListedAs_listing (registry : Registry) :
    registry.IsListedAs registry.listing [registry.entry] where
  perm := Text.perm_sort _
  ordered := registry.pairwise_listing
  strict_iff := Text.pairwise_precedes_sort_iff
  noted := by
    have hcount := registry.countP_private
    have hle := registry.length_listing_le
    refine ⟨_, rfl, by omega, by omega, ?_⟩
    rw [← hcount]
    rfl

/-- **The listing is the public names in the order of their code points.**  It does not depend on
the order of the registry, and nor does the note; a listing is listed as itself; a set is listed as
a registry without duplicates; and the registry of the machine is listed as one that is given. -/
theorem listPublic_sorts (host : Host) (registry : Registry) :
    ∃ names log, listPublic host (some registry) = (.ok names, log) ∧
      registry.IsListedAs names log ∧
      (∀ order : Registry, order.Perm registry →
        listPublic host (some order) = (.ok names, log)) ∧
      (listPublic host (some names)).1 = .ok names ∧
      (∀ order : Registry, order.Perm (ModuleSet.ofList registry).names →
        listPublic host (some order) = listPublic host (some registry.dedup)) ∧
      listPublic (some registry) none = (.ok names, log) := by
  refine ⟨registry.listing, [registry.entry], rfl, registry.isListedAs_listing,
    fun _ => listPublic_of_perm, congrArg Except.ok registry.listing_listing, ?_, rfl⟩
  intro order h
  exact listPublic_of_perm (h.trans (ModuleSet.perm_dedup registry))

/-- A beginning comes before the whole, and a character of the basic plane before one beyond it. -/
theorem listPublic_sorts_planes :
    let registry : Registry :=
      ["😀".toList, "～".toList, "_x".toList, "ab".toList, "a".toList, [], "a".toList]
    let order : Registry :=
      ["a".toList, [], "ab".toList, "a".toList, "_x".toList, "～".toList, "😀".toList]
    let set : Registry := ["～".toList, "a".toList, "_x".toList, [], "😀".toList, "ab".toList]
    order.Perm registry ∧
      (listPublic none (some order)).1
        = .ok [[], "a".toList, "a".toList, "ab".toList, "～".toList, "😀".toList] ∧
      set.Perm (ModuleSet.ofList registry).names ∧
      listPublic none (some set) = listPublic none (some registry.dedup) := by
  intro registry order set
  obtain ⟨names, log, hlist, -, hperm, -, hset, -⟩ := listPublic_sorts none registry
  have same : order.Perm registry := by decide
  have sameSet : set.Perm (ModuleSet.ofList registry).names := by decide
  have hlisting : registry.listing
      = [[], "a".toList, "a".toList, "ab".toList, "～".toList, "😀".toList] := by decide
  refine ⟨same, ?_, sameSet, hset set sameSet⟩
  rw [hperm order same, ← hlist, ← hlisting]
  rfl

end ModuleRoster
