import Mathlib.Data.List.Sort
import ModuleRoster.Text.Order

/-!
# Proofs/Text/Sorted — the order by code point, and its one sorted list

`Text.le` is the dictionary order on code points (`le_iff`), in which a beginning comes before the
whole.  A multiset of texts has one sorted list, so sorting does not see the order it is given
(`sort_eq_of_perm`), leaves a sorted list as it is (`sort_of_pairwise`), and ascends strictly just
if no text is there twice (`pairwise_precedes_sort_iff`).
-/

namespace ModuleRoster

theorem lexLe_iff : ∀ {as bs : List Nat}, lexLe as bs = true ↔ ¬List.Lex (· < ·) bs as
  | [], bs => by simp
  | a :: as, [] => by simp [lexLe]
  | a :: as, b :: bs => by
      rw [lexLe_cons, List.cons_lex_cons_iff, lexLe_iff]
      rcases Nat.lt_trichotomy a b with h | rfl | h
      · simp [h, Nat.lt_asymm h, Nat.ne_of_gt h]
      · simp
      · simp [h, Nat.lt_asymm h, Nat.ne_of_gt h]

namespace Text

variable {s t : Text} {ts us : List Text}

/-- **A text comes before another by code point**, in dictionary order. -/
def Precedes (s t : Text) : Prop := List.Lex (· < ·) s.codes t.codes

theorem le_iff : le s t = true ↔ ¬Precedes t s := lexLe_iff

theorem before_iff : Before s t ↔ Precedes s t := by
  rw [Before, le_iff]
  constructor
  · rintro ⟨hle, hne⟩
    refine Classical.byContradiction fun hst => hne ?_
    exact Text.le_antisymm (le_iff.2 hle) (le_iff.2 hst)
  · intro h
    have hle : le s t = true := (Text.le_total s t).resolve_right fun hts => le_iff.1 hts h
    refine ⟨le_iff.1 hle, ?_⟩
    rintro rfl
    exact le_iff.1 hle h

/-! ## Sorted lists -/

/-- **Lists of the same texts have the same sorted list.** -/
theorem sort_eq_of_perm (h : ts.Perm us) : sort ts = sort us :=
  List.Perm.eq_of_pairwise (fun _ _ _ _ => Text.le_antisymm) (pairwise_sort ts) (pairwise_sort us)
    ((perm_sort ts).trans (h.trans (perm_sort us).symm))

/-- **A sorted list stays as it is.** -/
theorem sort_of_pairwise (h : ts.Pairwise fun s t => le s t = true) : sort ts = ts :=
  List.Perm.eq_of_pairwise (fun _ _ _ _ => Text.le_antisymm) (pairwise_sort ts) h (perm_sort ts)

/-- **The sorted list ascends strictly** just if no text is there twice. -/
theorem pairwise_precedes_sort_iff : (sort ts).Pairwise Precedes ↔ ts.Nodup := by
  rw [← (perm_sort ts).nodup_iff]
  constructor
  · intro h
    exact h.imp fun hst => (before_iff.2 hst).2
  · intro h
    exact ((pairwise_sort ts).and h).imp fun hst => before_iff.1 hst

end Text

end ModuleRoster
