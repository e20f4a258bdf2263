import Mathlib.Data.Rat.Floor
import Mathlib.Tactic.FieldSimp
import Mathlib.Tactic.Linarith
import Mathlib.Tactic.Ring
import ModuleRoster.Number.Rounding

/-!
# Proofs/Number/Nearest — the nearest point of a grid

To round a number is to take the point of a grid that is nearest to it, and the even one of two that
are equally near (`IsNearest`).  If even points have another point between them, there is no choice
(`IsGrid.unique`), and rounding keeps the order (`IsGrid.mono`).

The multiples of a number are such a grid (`isGrid_multiples`), and `roundDiv` rounds a quotient to
them (`isNearest_roundDiv`).
-/

namespace ModuleRoster

/-- **The point of a grid nearest to a number**, an even one if another point is as near. -/
structure IsNearest (Point IsEven : ℚ → Prop) (q x : ℚ) : Prop where
  point : Point x
  nearest : ∀ y, Point y → |q - x| ≤ |q - y|
  even : ∀ y, Point y → y ≠ x → |q - y| = |q - x| → IsEven x

/-- **A grid**: zero is a mirror, and two even points have another point between them. -/
structure IsGrid (Point IsEven : ℚ → Prop) : Prop where
  neg_point : ∀ x, Point x → Point (-x)
  neg_even : ∀ x, IsEven x → IsEven (-x)
  between : ∀ x y, IsEven x → IsEven y → x < y → ∃ z, Point z ∧ x < z ∧ z < y

variable {Point IsEven : ℚ → Prop} {q r x y : ℚ}

/-! ## Which of two points is nearer -/

theorem two_mul_le_add (hxy : x < y) (h : |q - x| ≤ |q - y|) : 2 * q ≤ x + y := by
  by_contra beyond
  have hy : |q - y| < q - x := abs_lt.2 ⟨by linarith, by linarith⟩
  linarith [le_abs_self (q - x)]

theorem add_le_two_mul (hxy : x < y) (h : |q - y| ≤ |q - x|) : x + y ≤ 2 * q := by
  by_contra below
  have hx : |q - x| < y - q := abs_lt.2 ⟨by linarith, by linarith⟩
  linarith [neg_abs_le (q - y)]

/-- **A greater number has no lower nearest point.** -/
theorem IsNearest.le_of_lt (hx : IsNearest Point IsEven q x) (hy : IsNearest Point IsEven r y)
    (h : q < r) : x ≤ y := by
  by_contra crossed
  have hq := add_le_two_mul (lt_of_not_ge crossed) (hx.nearest y hy.point)
  have hr := two_mul_le_add (lt_of_not_ge crossed) (hy.nearest x hx.point)
  linarith

namespace IsGrid

variable (grid : IsGrid Point IsEven)
include grid

/-- The mirror image of a number has the mirror image of its nearest point. -/
theorem neg (h : IsNearest Point IsEven q x) : IsNearest Point IsEven (-q) (-x) := by
  have mirror : ∀ y, |-q - y| = |q - -y| := fun y => by
    rw [← abs_neg, show -(-q - y) = q - -y by ring]
  refine ⟨grid.neg_point x h.point, fun y hy => ?_, fun y hy hne htie => ?_⟩
  · rw [mirror, mirror, neg_neg]
    exact h.nearest _ (grid.neg_point y hy)
  · rw [mirror, mirror, neg_neg] at htie
    exact grid.neg_even x (h.even _ (grid.neg_point y hy) (fun hxy => hne (by rw [← hxy, neg_neg]))
      htie)

/-- Of two points that are nearest to a number none is lower. -/
theorem not_lt_of_isNearest (hx : IsNearest Point IsEven q x) (hy : IsNearest Point IsEven q y) :
    ¬ x < y := by
  intro hxy
  have htie : |q - x| = |q - y| := le_antisymm (hx.nearest y hy.point) (hy.nearest x hx.point)
  have hmiddle : 2 * q = x + y :=
    le_antisymm (two_mul_le_add hxy htie.le) (add_le_two_mul hxy htie.ge)
  obtain ⟨z, hz, hxz, hzy⟩ := grid.between x y (hx.even y hy.point hxy.ne' htie.symm)
    (hy.even x hx.point hxy.ne htie) hxy
  -- a point between the two is nearer than they are
  have hnearer : |q - z| < q - x := abs_lt.2 ⟨by linarith, by linarith⟩
  linarith [hx.nearest z hz, abs_of_nonneg (show 0 ≤ q - x by linarith)]

/-- **A number has one nearest point at most.** -/
theorem unique (hx : IsNearest Point IsEven q x) (hy : IsNearest Point IsEven q y) : x = y :=
  le_antisymm (not_lt.1 (grid.not_lt_of_isNearest hy hx))
    (not_lt.1 (grid.not_lt_of_isNearest hx hy))

theorem isNearest_iff (hx : IsNearest Point IsEven q x) : IsNearest Point IsEven q y ↔ y = x :=
  ⟨fun hy => grid.unique hy hx, fun h => h ▸ hx⟩

/-- **Rounding keeps the order.** -/
theorem mono (hx : IsNearest Point IsEven q x) (hy : IsNearest Point IsEven r y) (h : q ≤ r) :
    x ≤ y := by
  rcases h.lt_or_eq with h | rfl
  · exact hx.le_of_lt hy h
  · exact (grid.unique hx hy).le

end IsGrid

/-! ## Multiples -/

/-- Is this a multiple of `w`? -/
def IsMultiple (w x : ℚ) : Prop := ∃ k : ℤ, x = k * w

/-- Is this an even multiple of `w`? -/
def IsEvenMultiple (w x : ℚ) : Prop := ∃ k : ℤ, Even k ∧ x = k * w

variable {w : ℚ}

/-- **The multiples of a positive number are a grid.** -/
theorem isGrid_multiples (hw : 0 < w) : IsGrid (IsMultiple w) (IsEvenMultiple w) where
  neg_point := by
    rintro _ ⟨k, rfl⟩
    exact ⟨-k, by push_cast; ring⟩
  neg_even := by
    rintro _ ⟨k, hk, rfl⟩
    exact ⟨-k, hk.neg, by push_cast; ring⟩
  between := by
    rintro _ _ ⟨j, hj, rfl⟩ ⟨k, hk, rfl⟩ h
    have hjk : j < k := by exact_mod_cast lt_of_mul_lt_mul_right h hw.le
    -- the next multiple is odd, so it is not the upper one
    have hnext : j + 1 < k := by
      obtain ⟨a, rfl⟩ := hj
      obtain ⟨b, rfl⟩ := hk
      omega
    refine ⟨_, ⟨j + 1, rfl⟩, ?_, ?_⟩
    · exact mul_lt_mul_of_pos_right (by exact_mod_cast lt_add_one j) hw
    · exact mul_lt_mul_of_pos_right (by exact_mod_cast hnext) hw

/-- **A multiple less than half a step away is the nearest one**, and an even one also if it is just
half a step away. -/
theorem isNearest_multiple (hw : 0 < w) {k : ℤ}
    (near : |q - k| < 1 / 2 ∨ |q - k| = 1 / 2 ∧ Even k) :
    IsNearest (IsMultiple w) (IsEvenMultiple w) (q * w) (k * w) := by
  have steps : ∀ j : ℤ, |q * w - j * w| = |q - j| * w := fun j => by
    rw [← sub_mul, abs_mul, abs_of_pos hw]
  -- another multiple is a whole step away, so at least half a step from the number
  have far : ∀ j : ℤ, j ≠ k → 1 / 2 ≤ |q - j| := by
    intro j hjk
    have hstep : (1 : ℚ) ≤ |(k : ℚ) - j| := by
      exact_mod_cast Int.one_le_abs (sub_ne_zero.2 hjk.symm)
    have hsum := abs_sub_le (k : ℚ) q j
    rw [abs_sub_comm (k : ℚ) q] at hsum
    rcases near with near | ⟨near, -⟩ <;> linarith
  have le_half : |q - k| ≤ 1 / 2 := near.elim le_of_lt fun h => h.1.le
  refine ⟨⟨k, rfl⟩, ?_, ?_⟩
  · rintro _ ⟨j, rfl⟩
    rcases eq_or_ne j k with rfl | hjk
    · exact le_rfl
    · rw [steps, steps]
      exact mul_le_mul_of_nonneg_right (le_half.trans (far j hjk)) hw.le
  · rintro _ ⟨j, rfl⟩ hne htie
    have hjk : j ≠ k := fun h => hne (by rw [h])
    rw [steps, steps] at htie
    have hhalf : 1 / 2 ≤ |q - k| := mul_right_cancel₀ hw.ne' htie ▸ far j hjk
    rcases near with near | ⟨-, even⟩
    · exact absurd near hhalf.not_gt
    · exact ⟨k, even, rfl⟩

/-- **The nearest multiple is at most half a step away**, because the next one on its other side is
not nearer. -/
theorem IsNearest.abs_sub_le (hw : 0 < w) (h : IsNearest (IsMultiple w) (IsEvenMultiple w) q x) :
    |q - x| ≤ w / 2 := by
  obtain ⟨k, rfl⟩ := h.point
  have hbelow := two_mul_le_add (lt_add_of_pos_right _ hw)
    (h.nearest (k * w + w) ⟨k + 1, by push_cast; ring⟩)
  have habove := add_le_two_mul (sub_lt_self _ hw)
    (h.nearest (k * w - w) ⟨k - 1, by push_cast; ring⟩)
  exact abs_le.2 ⟨by linarith, by linarith⟩

/-! ## Rounded quotients -/

section

variable {n d : Nat}

theorem roundDiv_zero (hd : 0 < d) : roundDiv 0 d = 0 := by
  simp [roundDiv, hd]

/-- **A rounded quotient is less than half off, or just half off and even.** -/
theorem roundDiv_cases (hd : 0 < d) :
    (2 * n < (2 * roundDiv n d + 1) * d ∧ 2 * roundDiv n d * d < 2 * n + d) ∨
      ((2 * n = (2 * roundDiv n d + 1) * d ∨ 2 * roundDiv n d * d = 2 * n + d) ∧
        roundDiv n d % 2 = 0) := by
  have hn := Nat.div_add_mod n d
  have hr := Nat.mod_lt n hd
  unfold roundDiv
  dsimp only
  generalize n / d = a at hn ⊢
  generalize n % d = b at hn hr ⊢
  subst hn
  have hcomm : d * a = a * d := Nat.mul_comm d a
  split
  next low =>
    refine Or.inl ⟨?_, ?_⟩ <;> nlinarith
  next high =>
    split
    next low =>
      refine Or.inl ⟨?_, ?_⟩ <;> nlinarith
    next half =>
      have hhalf : 2 * b = d := by omega
      split
      next even => exact Or.inr ⟨Or.inl (by nlinarith), even⟩
      next odd => exact Or.inr ⟨Or.inr (by nlinarith), by omega⟩

theorem div_sub_roundDiv_cases (hd : 0 < d) :
    |(n : ℚ) / d - (roundDiv n d : ℤ)| < 1 / 2 ∨
      |(n : ℚ) / d - (roundDiv n d : ℤ)| = 1 / 2 ∧ Even (roundDiv n d : ℤ) := by
  have hd' : (0 : ℚ) < d := by exact_mod_cast hd
  have hoff : (n : ℚ) / d - (roundDiv n d : ℤ) = (2 * n - 2 * roundDiv n d * d) / (2 * d) := by
    push_cast
    field_simp
  have hhalf : (1 : ℚ) / 2 = d / (2 * d) := by field_simp
  rw [hoff, hhalf, abs_div, abs_of_pos (show (0 : ℚ) < 2 * d by linarith),
    div_lt_div_iff_of_pos_right (by linarith), div_left_inj' (by linarith)]
  rcases roundDiv_cases (n := n) hd with ⟨hlow, hhigh⟩ | ⟨htie, heven⟩
  · have hlow : (2 * n : ℚ) < (2 * roundDiv n d + 1) * d := by exact_mod_cast hlow
    have hhigh : (2 * roundDiv n d * d : ℚ) < 2 * n + d := by exact_mod_cast hhigh
    exact Or.inl (abs_lt.2 ⟨by linarith, by linarith⟩)
  · refine Or.inr ⟨?_, Int.even_iff.2 (by exact_mod_cast heven)⟩
    rcases htie with htie | htie
    · have htie : (2 * n : ℚ) = (2 * roundDiv n d + 1) * d := by exact_mod_cast htie
      rw [abs_of_nonneg (by linarith)]
      linarith
    · have htie : (2 * roundDiv n d * d : ℚ) = 2 * n + d := by exact_mod_cast htie
      rw [abs_of_nonpos (by linarith)]
      linarith

/-- **A quotient of steps is rounded to the nearest whole number of steps.** -/
theorem isNearest_roundDiv (hd : 0 < d) (hw : 0 < w) :
    IsNearest (IsMultiple w) (IsEvenMultiple w) (n / d * w) (roundDiv n d * w) := by
  exact_mod_cast isNearest_multiple hw (div_sub_roundDiv_cases hd)

end

end ModuleRoster
