/-!
# Text/Order — texts, and their order by code point

A text is the list of its Unicode scalar values, and texts are compared like words in a dictionary
whose alphabet is the code points.  `Text.le` is a linear order, so `Text.sort` has one result for
each multiset of texts.
-/

namespace ModuleRoster

/-- A text: its Unicode scalar values, in order. -/
abbrev Text := List Char

/-- A sequence of bytes. -/
abbrev Bytes := List UInt8

/-! ## Dictionary order on numbers -/

/-- **Dictionary order**: the first difference decides, and a beginning comes before the whole. -/
def lexLe : List Nat → List Nat → Bool
  | [], _ => true
  | _ :: _, [] => false
  | a :: as, b :: bs => decide (a < b) || (a == b && lexLe as bs)

@[simp] theorem lexLe_nil (bs : List Nat) : lexLe [] bs = true := by
  cases bs <;> rfl

theorem lexLe_cons {a b : Nat} {as bs : List Nat} :
    lexLe (a :: as) (b :: bs) = true ↔ a < b ∨ a = b ∧ lexLe as bs = true := by
  simp [lexLe]

@[simp] theorem lexLe_refl : ∀ as : List Nat, lexLe as as = true
  | [] => rfl
  | _ :: as => lexLe_cons.2 (Or.inr ⟨rfl, lexLe_refl as⟩)

theorem lexLe_total : ∀ as bs : List Nat, lexLe as bs = true ∨ lexLe bs as = true
  | [], _ => Or.inl (lexLe_nil _)
  | _ :: _, [] => Or.inr (lexLe_nil _)
  | a :: as, b :: bs => by
      have ih := lexLe_total as bs
      simp only [lexLe_cons]
      rcases Nat.lt_trichotomy a b with h | rfl | h
      · exact Or.inl (Or.inl h)
      · rcases ih with h | h
        · exact Or.inl (Or.inr ⟨rfl, h⟩)
        · exact Or.inr (Or.inr ⟨rfl, h⟩)
      · exact Or.inr (Or.inl h)

theorem lexLe_trans : ∀ {as bs cs : List Nat},
    lexLe as bs = true → lexLe bs cs = true → lexLe as cs = true
  | [], _, _, _, _ => lexLe_nil _
  | _ :: _, [], _, h, _ => by simp [lexLe] at h
  | _ :: _, _ :: _, [], _, h => by simp [lexLe] at h
  | a :: as, b :: bs, c :: cs, hab, hbc => by
      rw [lexLe_cons] at hab hbc ⊢
      rcases hab with hab | ⟨rfl, hab⟩
      · rcases hbc with hbc | ⟨rfl, _⟩
        · exact Or.inl (Nat.lt_trans hab hbc)
        · exact Or.inl hab
      · rcases hbc with hbc | ⟨rfl, hbc⟩
        · exact Or.inl hbc
        · exact Or.inr ⟨rfl, lexLe_trans hab hbc⟩

theorem lexLe_antisymm : ∀ {as bs : List Nat},
    lexLe as bs = true → lexLe bs as = true → as = bs
  | [], [], _, _ => rfl
  | [], _ :: _, _, h => by simp [lexLe] at h
  | _ :: _, [], h, _ => by simp [lexLe] at h
  | a :: as, b :: bs, hab, hba => by
      rw [lexLe_cons] at hab hba
      rcases hab with hab | ⟨rfl, hab⟩
      · rcases hba with hba | ⟨rfl, _⟩
        · exact absurd hab (Nat.lt_asymm hba)
        · exact absurd hab (Nat.lt_irrefl _)
      · rcases hba with hba | ⟨_, hba⟩
        · exact absurd hba (Nat.lt_irrefl _)
        · rw [lexLe_antisymm hab hba]

namespace Text

/-! ## Texts by code point -/

/-- The code points of a text. -/
def codes (t : Text) : List Nat := t.map Char.toNat

theorem codes_inj : ∀ {s t : Text}, codes s = codes t → s = t
  | [], [], _ => rfl
  | [], _ :: _, h => by simp [codes] at h
  | _ :: _, [], h => by simp [codes] at h
  | c :: s, d :: t, h => by
      simp only [codes, List.map_cons, List.cons.injEq] at h
      rw [Char.toNat_inj.mp h.1, codes_inj h.2]

/-- `le s t` says that `s` comes no later than `t` by code point. -/
def le (s t : Text) : Bool := lexLe (codes s) (codes t)

@[simp] protected theorem le_refl (s : Text) : le s s = true := lexLe_refl _

protected theorem le_total (s t : Text) : le s t = true ∨ le t s = true := lexLe_total _ _

protected theorem le_trans {s t u : Text} (h : le s t = true) (h' : le t u = true) :
    le s u = true :=
  lexLe_trans h h'

protected theorem le_antisymm {s t : Text} (h : le s t = true) (h' : le t s = true) : s = t :=
  codes_inj (lexLe_antisymm h h')

/-- `s` comes before `t` by code point. -/
def Before (s t : Text) : Prop := le s t = true ∧ s ≠ t

/-! ## Sorting -/

/-- Put a text into a sorted list, in front of the first text that it is not behind. -/
def insertSorted (t : Text) : List Text → List Text
  | [] => [t]
  | u :: us => if le t u then t :: u :: us else u :: insertSorted t us

/-- **Sort texts by code point**; equal texts all stay. -/
def sort : List Text → List Text
  | [] => []
  | t :: ts => insertSorted t (sort ts)

theorem perm_insertSorted (t : Text) : ∀ us : List Text, (insertSorted t us).Perm (t :: us)
  | [] => List.Perm.refl _
  | u :: us => by
      unfold insertSorted
      split
      · exact List.Perm.refl _
      · exact ((perm_insertSorted t us).cons u).trans (List.Perm.swap t u us)

/-- Sorting moves texts about and does nothing else. -/
theorem perm_sort : ∀ ts : List Text, (sort ts).Perm ts
  | [] => List.Perm.refl _
  | t :: ts => (perm_insertSorted t (sort ts)).trans ((perm_sort ts).cons t)

theorem pairwise_insertSorted (t : Text) : ∀ {us : List Text},
    us.Pairwise (fun u v => le u v = true) →
      (insertSorted t us).Pairwise fun u v => le u v = true
  | [], _ => List.pairwise_singleton _ _
  | u :: us, h => by
      obtain ⟨hu, hus⟩ := List.pairwise_cons.1 h
      unfold insertSorted
      split
      next htu =>
        refine List.pairwise_cons.2 ⟨fun v hv => ?_, h⟩
        rcases List.mem_cons.1 hv with rfl | hv
        · exact htu
        · exact Text.le_trans htu (hu v hv)
      next htu =>
        refine List.pairwise_cons.2 ⟨fun v hv => ?_, pairwise_insertSorted t hus⟩
        rcases List.mem_cons.1 ((perm_insertSorted t us).mem_iff.1 hv) with rfl | hv
        · exact (Text.le_total v u).resolve_left htu
        · exact hu v hv

/-- **A sorted list is in order.** -/
theorem pairwise_sort : ∀ ts : List Text, (sort ts).Pairwise fun u v => le u v = true
  | [] => List.Pairwise.nil
  | t :: ts => pairwise_insertSorted t (pairwise_sort ts)

end Text

end ModuleRoster
