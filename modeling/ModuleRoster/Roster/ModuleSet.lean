import ModuleRoster.Text.Blank
import ModuleRoster.Text.Lines

/-!
# Roster/ModuleSet — sets of module names, and the lists they are read from

A set is kept as its names in strictly ascending order, so equal sets are equal values.  A written
list has one name to a line; blanks around a name and empty lines do not count.
-/

namespace ModuleRoster

/-- **A set of names**, in strictly ascending order. -/
structure ModuleSet where
  names : List Text
  ascending : names.Pairwise Text.Before
  deriving DecidableEq

namespace ModuleSet

/-! ## Making a set -/

/-- Put a name into an ascending list, unless it is there. -/
def insertName (n : Text) : List Text → List Text
  | [] => [n]
  | m :: ms =>
      if n = m then m :: ms
      else if Text.le n m then n :: m :: ms
      else m :: insertName n ms

theorem mem_insertName {n m : Text} : ∀ {ms : List Text}, m ∈ insertName n ms ↔ m = n ∨ m ∈ ms
  | [] => by simp [insertName]
  | k :: ms => by
      unfold insertName
      split
      next h => subst h; simp
      next =>
        split
        · simp
        · rw [List.mem_cons, List.mem_cons, mem_insertName]
          exact or_left_comm

theorem pairwise_insertName {n : Text} : ∀ {ms : List Text},
    ms.Pairwise Text.Before → (insertName n ms).Pairwise Text.Before
  | [], _ => List.pairwise_singleton _ _
  | m :: ms, h => by
      obtain ⟨hm, hms⟩ := List.pairwise_cons.1 h
      unfold insertName
      split
      · exact h
      next hne =>
        split
        next hle =>
          refine List.pairwise_cons.2 ⟨fun k hk => ?_, h⟩
          rcases List.mem_cons.1 hk with rfl | hk
          · exact ⟨hle, hne⟩
          · refine ⟨Text.le_trans hle (hm k hk).1, fun hnk => ?_⟩
            subst hnk
            exact hne (Text.le_antisymm hle (hm n hk).1)
        next hle =>
          refine List.pairwise_cons.2 ⟨fun k hk => ?_, pairwise_insertName hms⟩
          rcases mem_insertName.1 hk with rfl | hk
          · exact ⟨(Text.le_total m k).resolve_right hle, fun h => hne h.symm⟩
          · exact hm k hk

/-- The names of a list, each once and in ascending order. -/
def ascend : List Text → List Text
  | [] => []
  | n :: ns => insertName n (ascend ns)

theorem pairwise_ascend : ∀ ns : List Text, (ascend ns).Pairwise Text.Before
  | [] => List.Pairwise.nil
  | _ :: ns => pairwise_insertName (pairwise_ascend ns)

theorem mem_ascend {m : Text} : ∀ {ns : List Text}, m ∈ ascend ns ↔ m ∈ ns
  | [] => by simp [ascend]
  | n :: ns => by rw [ascend, mem_insertName, mem_ascend, List.mem_cons]

/-- **The set of the names in a list.** -/
def ofList (ns : List Text) : ModuleSet := ⟨ascend ns, pairwise_ascend ns⟩

/-- The set without a name. -/
def empty : ModuleSet := ofList []

instance : Membership Text ModuleSet := ⟨fun s n => n ∈ s.names⟩

instance (n : Text) (s : ModuleSet) : Decidable (n ∈ s) :=
  inferInstanceAs (Decidable (n ∈ s.names))

@[simp] theorem mem_ofList {n : Text} {ns : List Text} : n ∈ ofList ns ↔ n ∈ ns := mem_ascend

/-! ## Reading a list -/

/-- **The names in a written list.** -/
def parse (t : Text) : ModuleSet :=
  ofList (((Text.lines t).map Text.trim).filter fun n => !n.isEmpty)

end ModuleSet

end ModuleRoster
