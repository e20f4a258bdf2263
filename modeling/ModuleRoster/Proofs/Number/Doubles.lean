import ModuleRoster.Proofs.Number.Mantissa
import ModuleRoster.Proofs.Number.Nearest

/-!
# Proofs/Number/Doubles — the doubles among the rational numbers

The finite doubles, read as exact rational numbers, are a grid, and the even ones are those whose
last bit is zero (`isGrid_doubles`).  `Magnitude.round?` rounds to this grid
(`isNearest_of_round?`), up to the number from which on there is no double that is near enough
(`Magnitude.round?_eq_none_iff`).
-/

namespace ModuleRoster

/-- A number with a sign in front. -/
def signed (negative : Bool) (q : ℚ) : ℚ := if negative then -q else q

/-- **The number that a magnitude is.** -/
def Magnitude.value (m : Magnitude) : ℚ := m.units / unitsInOne

/-- **The number that a double is**, if it is finite. -/
def Binary64.value? : Binary64 → Option ℚ
  | .finite s m => some (signed s m.value)
  | _ => none

/-- The sign bit of a double, which a zero has too. -/
def Binary64.isNegative : Binary64 → Bool
  | .nan => false
  | .infinite s => s
  | .finite s _ => s

/-- **Is a number a double?**  Then some bit pattern means it. -/
def IsDouble (q : ℚ) : Prop := ∃ bits : UInt64, (Binary64.ofBits bits).value? = some q

/-- **Is a number a double with an even mantissa?**  Then its bit pattern ends with a zero. -/
def IsEvenDouble (q : ℚ) : Prop :=
  ∃ bits : UInt64, (Binary64.ofBits bits).value? = some q ∧ bits.toNat % 2 = 0

variable {n k : Nat} {s t : Bool} {m m' : Magnitude} {x y : Binary64} {q r : ℚ}

/-! ## Signs -/

@[simp] theorem signed_false (q : ℚ) : signed false q = q := rfl

@[simp] theorem signed_true (q : ℚ) : signed true q = -q := rfl

theorem signed_not (s : Bool) (q : ℚ) : signed (!s) q = -signed s q := by
  cases s <;> simp

theorem signed_add (s : Bool) (q r : ℚ) : signed s (q + r) = signed s q + signed s r := by
  cases s with
  | false => rfl
  | true => exact neg_add q r

theorem signed_sub (s : Bool) (q r : ℚ) : signed s (q - r) = signed s q - signed s r := by
  cases s with
  | false => rfl
  | true => exact neg_sub' q r

theorem abs_signed (s : Bool) (q : ℚ) : |signed s q| = |q| := by
  cases s <;> simp

/-! ## Numbers of units -/

theorem unitsInOne_pos : (0 : ℚ) < unitsInOne := by
  exact_mod_cast twoPow_pos unitExponent

theorem Magnitude.value_nonneg (m : Magnitude) : 0 ≤ m.value :=
  div_nonneg (Nat.cast_nonneg _) unitsInOne_pos.le

theorem units_div_lt_iff : (n : ℚ) / unitsInOne < k / unitsInOne ↔ n < k := by
  rw [div_lt_div_iff_of_pos_right unitsInOne_pos, Nat.cast_lt]

theorem units_div_le_iff : (n : ℚ) / unitsInOne ≤ k / unitsInOne ↔ n ≤ k := by
  rw [div_le_div_iff_of_pos_right unitsInOne_pos, Nat.cast_le]

theorem Binary64.value?_eq_some_iff :
    x.value? = some q ↔ ∃ (s : Bool) (m : Magnitude), x = .finite s m ∧ q = signed s m.value := by
  cases x with
  | nan => simp [value?]
  | infinite s => simp [value?]
  | finite s m =>
    simp only [value?, Option.some.injEq, Binary64.finite.injEq]
    constructor
    · rintro rfl
      exact ⟨s, m, ⟨rfl, rfl⟩, rfl⟩
    · rintro ⟨_, _, ⟨rfl, rfl⟩, rfl⟩
      rfl

theorem Binary64.value?_zero : zero.value? = some 0 := by
  decide +kernel

theorem isDouble_iff : IsDouble q ↔ ∃ (s : Bool) (m : Magnitude), q = signed s m.value := by
  constructor
  · rintro ⟨bits, h⟩
    obtain ⟨s, m, -, hq⟩ := Binary64.value?_eq_some_iff.1 h
    exact ⟨s, m, hq⟩
  · rintro ⟨s, m, rfl⟩
    obtain ⟨bits, hbits⟩ := Binary64.exists_ofBits s m
    exact ⟨bits, Binary64.value?_eq_some_iff.2 ⟨s, m, hbits, rfl⟩⟩

theorem isEvenDouble_iff : IsEvenDouble q ↔ ∃ (s : Bool) (m : Magnitude),
    q = signed s m.value ∧ m.mantissa % 2 = 0 := by
  constructor
  · rintro ⟨bits, h, heven⟩
    obtain ⟨s, m, hbits, hq⟩ := Binary64.value?_eq_some_iff.1 h
    exact ⟨s, m, hq, (Binary64.bits_of_ofBits hbits).2 ▸ heven⟩
  · rintro ⟨s, m, rfl, heven⟩
    obtain ⟨bits, hbits⟩ := Binary64.exists_ofBits s m
    exact ⟨bits, Binary64.value?_eq_some_iff.2 ⟨s, m, hbits, rfl⟩,
      (Binary64.bits_of_ofBits hbits).2 ▸ heven⟩

/-! ## The grid of the doubles -/

namespace Magnitude

/-- **Two magnitudes with even mantissas have another one between them**: the one after the lower
one, whose mantissa is odd. -/
theorem exists_between (hm : m.mantissa % 2 = 0) (hm' : m'.mantissa % 2 = 0)
    (h : m.units < m'.units) : ∃ z : Magnitude, m.units < z.units ∧ z.units < m'.units := by
  have hc : m.mantissa + 1 < twoPow 53 := by
    have hlt := m.mantissa_lt
    obtain ⟨-, -, h53, -⟩ := Binary64.twoPow_fields
    omega
  have hwhole : twoPow 52 ≤ m.mantissa + 1 ∨ excess m.units = 0 :=
    m.mantissa_whole.imp_left Nat.le_succ_of_le
  -- both are multiples of the shifted one, and so is the magnitude in between
  have hdvd : twoPow (excess m.units) ∣ m'.units :=
    Nat.dvd_trans (Nat.pow_dvd_pow 2 (excess_mono h.le)) m'.twoPow_excess_dvd
  have hle : (m.mantissa + 1) * twoPow (excess m.units) ≤ m'.units := by
    obtain ⟨c, hc'⟩ := hdvd
    rw [hc', mul_comm]
    refine Nat.mul_le_mul_left _ ?_
    rw [m.units_eq, hc', mul_comm] at h
    exact Nat.lt_of_mul_lt_mul_left h
  have hne : (m.mantissa + 1) * twoPow (excess m.units) ≠ m'.units := by
    intro heq
    have hodd := (m'.mantissa_eq hc hwhole heq.symm).1
    omega
  refine ⟨⟨(m.mantissa + 1) * twoPow (excess m.units), ⟨_, _, hc, rfl⟩, ?_⟩, ?_, ?_⟩
  · exact lt_of_le_of_lt hle m'.units_lt
  · conv_lhs => rw [m.units_eq]
    exact Nat.mul_lt_mul_of_pos_right (Nat.lt_succ_self _) (twoPow_pos _)
  · exact lt_of_le_of_ne hle hne

/-- A mantissa that was rounded up to 54 bits is even as the next shorter one. -/
theorem even_mantissa {c e : Nat} (hc : c ≤ twoPow 53) (whole : twoPow 52 ≤ c ∨ e = 0)
    (hunits : m.units = c * twoPow e) (heven : c % 2 = 0) : m.mantissa % 2 = 0 := by
  rcases Nat.lt_or_eq_of_le hc with hc | rfl
  · rw [(m.mantissa_eq hc whole hunits).1, heven]
  · have hunits : m.units = twoPow 52 * twoPow (e + 1) := by
      rw [hunits, ← twoPow_add, ← twoPow_add]
      congr 1
      omega
    rw [(m.mantissa_eq (by decide) (Or.inl le_rfl) hunits).1]
    rfl

end Magnitude

theorem IsEvenDouble.exists_magnitude (h : IsEvenDouble q) (hq : 0 ≤ q) :
    ∃ m : Magnitude, q = m.value ∧ m.mantissa % 2 = 0 := by
  obtain ⟨s, m, rfl, heven⟩ := isEvenDouble_iff.1 h
  refine ⟨m, ?_, heven⟩
  cases s with
  | false => rfl
  | true =>
    have hm := m.value_nonneg
    rw [signed_true] at hq ⊢
    linarith

/-- **The doubles are a grid.** -/
theorem isGrid_doubles : IsGrid IsDouble IsEvenDouble := by
  have neg_point : ∀ x, IsDouble x → IsDouble (-x) := by
    intro x hx
    obtain ⟨s, m, rfl⟩ := isDouble_iff.1 hx
    exact isDouble_iff.2 ⟨!s, m, (signed_not s _).symm⟩
  have neg_even : ∀ x, IsEvenDouble x → IsEvenDouble (-x) := by
    intro x hx
    obtain ⟨s, m, rfl, heven⟩ := isEvenDouble_iff.1 hx
    exact isEvenDouble_iff.2 ⟨!s, m, (signed_not s _).symm, heven⟩
  have above : ∀ x y, IsEvenDouble x → IsEvenDouble y → 0 ≤ x → x < y →
      ∃ z, IsDouble z ∧ x < z ∧ z < y := by
    intro x y hx hy hzero hxy
    obtain ⟨m, rfl, hm⟩ := hx.exists_magnitude hzero
    obtain ⟨m', rfl, hm'⟩ := hy.exists_magnitude (hzero.trans hxy.le)
    obtain ⟨z, hz, hz'⟩ := Magnitude.exists_between hm hm' (units_div_lt_iff.1 hxy)
    exact ⟨z.value, isDouble_iff.2 ⟨false, z, rfl⟩, units_div_lt_iff.2 hz, units_div_lt_iff.2 hz'⟩
  refine ⟨neg_point, neg_even, fun x y hx hy hxy => ?_⟩
  rcases le_or_gt 0 x with hzero | hneg
  · exact above x y hx hy hzero hxy
  · rcases le_or_gt y 0 with hzero | hpos
    · obtain ⟨z, hz, hyz, hzx⟩ := above (-y) (-x) (neg_even y hy) (neg_even x hx)
        (neg_nonneg.2 hzero) (neg_lt_neg hxy)
      exact ⟨-z, neg_point z hz, lt_neg_of_lt_neg hzx, neg_lt_of_neg_lt hyz⟩
    · exact ⟨0, ⟨0, by decide +kernel⟩, hneg, hpos⟩

/-! ## Rounding to the doubles -/

theorem isMultiple_of_dvd (h : n ∣ k) : IsMultiple (n / unitsInOne) (k / unitsInOne) := by
  obtain ⟨c, rfl⟩ := h
  exact ⟨c, by rw [Nat.cast_mul, mul_comm, mul_div_assoc, Int.cast_natCast]⟩

/-- The last place that counts in a number of so many units. -/
def lastPlace (n : Nat) : ℚ := (twoPow (Magnitude.excess n) : ℕ) / unitsInOne

theorem lastPlace_pos (n : Nat) : 0 < lastPlace n :=
  div_pos (by exact_mod_cast twoPow_pos _) unitsInOne_pos

/-- **A double is a multiple of the last place of a number**, or it is below the first place of it,
which is such a multiple. -/
theorem IsDouble.isMultiple_or (h : IsDouble q) (n : Nat) : IsMultiple (lastPlace n) q ∨
    ∃ b, IsMultiple (lastPlace n) b ∧ q < b ∧ b ≤ n / unitsInOne := by
  obtain ⟨s, m, rfl⟩ := isDouble_iff.1 h
  by_cases hdvd : twoPow (Magnitude.excess n) ∣ m.units
  · refine Or.inl ?_
    cases s with
    | false => exact isMultiple_of_dvd hdvd
    | true => exact (isGrid_multiples (lastPlace_pos n)).neg_point _ (isMultiple_of_dvd hdvd)
  · have hpos : Magnitude.excess n ≠ 0 := by
      intro hzero
      rw [hzero] at hdvd
      exact hdvd (Nat.one_dvd _)
    have hlt : m.units < twoPow (52 + Magnitude.excess n) := by
      refine Nat.lt_of_not_le fun hle => hdvd ?_
      exact Nat.dvd_trans (Nat.pow_dvd_pow 2 (Magnitude.le_excess hle)) m.twoPow_excess_dvd
    refine Or.inr ⟨(twoPow (52 + Magnitude.excess n) : ℕ) / unitsInOne, isMultiple_of_dvd ?_, ?_,
      units_div_le_iff.2 (Magnitude.twoPow_le_of_excess hpos)⟩
    · exact Nat.pow_dvd_pow 2 (Nat.le_add_left _ _)
    · have hsigned : signed s m.value ≤ m.value := (le_abs_self _).trans
        (by rw [abs_signed, abs_of_nonneg m.value_nonneg])
      exact hsigned.trans_lt (units_div_lt_iff.2 hlt)

/-- The rounded number of units in last places. -/
theorem roundUnits_shift (n : Nat) : roundDiv n (twoPow (Magnitude.excess n)) ≤ twoPow 53 ∧
    (twoPow 52 ≤ roundDiv n (twoPow (Magnitude.excess n)) ∨ Magnitude.excess n = 0) := by
  refine ⟨(roundDiv_le _ _).trans (Magnitude.div_twoPow_excess_lt n), ?_⟩
  by_cases hzero : Magnitude.excess n = 0
  · exact Or.inr hzero
  · refine Or.inl (le_trans ((Nat.le_div_iff_mul_le (twoPow_pos _)).2 ?_) (le_roundDiv _ _))
    rw [← twoPow_add]
    exact Magnitude.twoPow_le_of_excess hzero

/-- **A number of units is rounded to the nearest double**, if there is a double of so many
units. -/
theorem isNearest_roundUnits (h : m.units = Magnitude.roundUnits n) :
    IsNearest IsDouble IsEvenDouble (n / unitsInOne) m.value := by
  have hplaces := isNearest_roundDiv (n := n) (twoPow_pos (Magnitude.excess n)) (lastPlace_pos n)
  have hpow : ((twoPow (Magnitude.excess n) : ℕ) : ℚ) ≠ 0 := by exact_mod_cast (twoPow_pos _).ne'
  have hn : (n : ℚ) / (twoPow (Magnitude.excess n) : ℕ) * lastPlace n = n / unitsInOne := by
    rw [lastPlace, div_mul_div_cancel₀ hpow]
  have hm : (roundDiv n (twoPow (Magnitude.excess n)) : ℚ) * lastPlace n = m.value := by
    rw [lastPlace, Magnitude.value, h, Magnitude.roundUnits, Nat.cast_mul, mul_div_assoc]
  rw [hn, hm] at hplaces
  refine ⟨isDouble_iff.2 ⟨false, m, rfl⟩, fun y hy => ?_, fun y hy hne htie => ?_⟩
  · rcases hy.isMultiple_or n with hy | ⟨b, hb, hyb, hbn⟩
    · exact hplaces.nearest y hy
    · refine (hplaces.nearest b hb).trans ?_
      rw [abs_of_nonneg (sub_nonneg.2 hbn), abs_of_nonneg (by linarith)]
      linarith
  · rcases hy.isMultiple_or n with hy | ⟨b, hb, hyb, hbn⟩
    · obtain ⟨k, hk, heq⟩ := hplaces.even y hy hne htie
      have hround : (roundDiv n (twoPow (Magnitude.excess n)) : ℤ) = k := by
        have := mul_right_cancel₀ (lastPlace_pos n).ne' (hm.trans heq)
        exact_mod_cast this
      obtain ⟨hc, hwhole⟩ := roundUnits_shift n
      refine isEvenDouble_iff.2 ⟨false, m, rfl, Magnitude.even_mantissa hc hwhole h ?_⟩
      rw [← hround] at hk
      exact_mod_cast Int.even_iff.1 hk
    · -- the first place of the number is nearer than anything below it
      have hnearer := hplaces.nearest b hb
      rw [← htie, abs_of_nonneg (sub_nonneg.2 hbn), abs_of_nonneg (by linarith)] at hnearer
      linarith

/-! ## The end of the doubles -/

theorem unitLimit_eq : unitLimit = twoPow 53 * twoPow 2045 := twoPow_add 53 2045

theorem twoPow_2045 : twoPow 2045 = 2 * twoPow 2044 :=
  (twoPow_succ 2044).trans (mul_comm _ _)

/-- From the middle behind a step with an odd number on, the next step is nearer. -/
theorem le_roundDiv_of_middle {a c : Nat} (ha : 0 < a) (hc : c % 2 = 0)
    (h : c * (2 * a) ≤ n + a) : c ≤ roundDiv n (2 * a) := by
  have hpos : 0 < 2 * a := by omega
  rcases roundDiv_cases (n := n) hpos with ⟨hlow, -⟩ | ⟨htie | htie, heven⟩
  · have hlt : 2 * c < 2 * roundDiv n (2 * a) + 2 := by
      refine Nat.lt_of_mul_lt_mul_right (a := 2 * a) ?_
      nlinarith
    omega
  · have hle : 2 * c ≤ 2 * roundDiv n (2 * a) + 2 := by
      refine Nat.le_of_mul_le_mul_right ?_ hpos
      nlinarith
    omega
  · refine Nat.le_of_mul_le_mul_right ?_ hpos
    nlinarith

/-- **A number is rounded beyond the last double from the middle on** between this and the one that
would follow it: the last double has an odd mantissa. -/
theorem unitLimit_le_roundUnits_iff :
    unitLimit ≤ Magnitude.roundUnits n ↔ unitLimit ≤ n + twoPow 2044 := by
  have hpos := twoPow_pos (Magnitude.excess n)
  unfold Magnitude.roundUnits
  constructor
  · intro h
    by_contra below
    have hu : twoPow (Magnitude.excess n) ≤ 2 * twoPow 2044 := by
      rw [← twoPow_2045]
      refine twoPow_le_twoPow (Magnitude.excess_le ?_)
      rw [twoPow_add, ← unitLimit_eq]
      omega
    rcases roundDiv_cases (n := n) hpos with ⟨-, hhigh⟩ | ⟨htie | htie, -⟩ <;> nlinarith
  · intro h
    rcases Nat.lt_or_ge n unitLimit with hlt | hge
    · have hu : Magnitude.excess n = 2045 := by
        refine Nat.le_antisymm (Magnitude.excess_le ?_) (Magnitude.le_excess ?_)
        · rwa [twoPow_add, ← unitLimit_eq]
        · rw [unitLimit_eq, show twoPow 53 = twoPow 52 * 2 from rfl, twoPow_2045] at h
          rw [twoPow_add, twoPow_2045]
          nlinarith [twoPow_pos 52]
      rw [unitLimit_eq, twoPow_2045] at h
      rw [hu, unitLimit_eq, twoPow_2045]
      exact Nat.mul_le_mul_right _ (le_roundDiv_of_middle (twoPow_pos _) (by decide) h)
    · have hu : 2046 ≤ Magnitude.excess n := Magnitude.le_excess hge
      have hr := (roundUnits_shift n).2.resolve_right (by omega)
      calc unitLimit = twoPow 52 * twoPow 2046 := twoPow_add 52 2046
        _ ≤ roundDiv n (twoPow (Magnitude.excess n)) * twoPow (Magnitude.excess n) :=
          Nat.mul_le_mul hr (twoPow_le_twoPow hu)

namespace Magnitude

theorem round?_eq_some_iff :
    round? n = some m ↔ m.units = roundUnits n ∧ n + twoPow 2044 < unitLimit := by
  rw [← not_le, ← unitLimit_le_roundUnits_iff, not_le, round?]
  constructor
  · intro h
    split at h
    next hlt =>
      cases h
      exact ⟨rfl, hlt⟩
    next => cases h
  · rintro ⟨hunits, hlt⟩
    rw [dif_pos hlt]
    exact congrArg some (eq_of_units hunits.symm)

theorem round?_eq_none_iff : round? n = none ↔ unitLimit ≤ n + twoPow 2044 := by
  rw [← unitLimit_le_roundUnits_iff, round?]
  constructor
  · intro h
    split at h
    next => cases h
    next hge => exact Nat.le_of_not_lt hge
  · intro h
    rw [dif_neg (not_lt.2 h)]

end Magnitude

theorem cast_twoPow (k : Nat) : ((twoPow k : ℕ) : ℚ) = 2 ^ k := Nat.cast_pow 2 k

/-- The same end, in ones. -/
theorem units_div_lt_end_iff :
    (n : ℚ) / unitsInOne < 2 ^ 1024 - 2 ^ 970 ↔ n + twoPow 2044 < unitLimit := by
  have hunits : ((2 : ℚ) ^ 1024 - 2 ^ 970) * unitsInOne
      = (unitLimit : ℕ) - (twoPow 2044 : ℕ) := by
    rw [unitsInOne, unitLimit, cast_twoPow, cast_twoPow, cast_twoPow, sub_mul, ← pow_add, ← pow_add]
    rfl
  rw [div_lt_iff₀ unitsInOne_pos, hunits, lt_sub_iff_add_lt]
  exact_mod_cast Iff.rfl

namespace Binary64

theorem ofUnits_of_some (s : Bool) (h : Magnitude.round? n = some m) :
    ofUnits s n = .finite s m := by
  unfold ofUnits
  rw [h]

theorem ofUnits_of_none (s : Bool) (h : Magnitude.round? n = none) :
    ofUnits s n = .infinite s := by
  unfold ofUnits
  rw [h]

/-- **A number of units with a sign becomes the nearest double**, if it is not too great. -/
theorem exists_ofUnits (s : Bool) (h : (n : ℚ) / unitsInOne < 2 ^ 1024 - 2 ^ 970) :
    ∃ m, ofUnits s n = .finite s m ∧
      IsNearest IsDouble IsEvenDouble (signed s (n / unitsInOne)) (signed s m.value) := by
  rw [units_div_lt_end_iff] at h
  cases hround : Magnitude.round? n with
  | none => exact absurd h (not_lt.2 (Magnitude.round?_eq_none_iff.1 hround))
  | some m =>
    have hnearest := isNearest_roundUnits (Magnitude.round?_eq_some_iff.1 hround).1
    refine ⟨m, ofUnits_of_some s hround, ?_⟩
    cases s with
    | false => exact hnearest
    | true => exact isGrid_doubles.neg hnearest

theorem ofUnits_infinite (s : Bool) (h : 2 ^ 1024 - 2 ^ 970 ≤ (n : ℚ) / unitsInOne) :
    ofUnits s n = .infinite s := by
  rw [← not_lt, units_div_lt_end_iff, not_lt, ← Magnitude.round?_eq_none_iff] at h
  exact ofUnits_of_none s h

/-- **A number, rounded with a sign**: the nearest double, or infinity from the middle behind the
last double on. -/
structure IsRounded (x : Binary64) (negative : Bool) (q : ℚ) : Prop where
  nearest : |q| < 2 ^ 1024 - 2 ^ 970 → ∃ m : Magnitude, x = .finite negative m ∧
    IsNearest IsDouble IsEvenDouble q (signed negative m.value)
  infinite : 2 ^ 1024 - 2 ^ 970 ≤ |q| → x = .infinite negative

theorem isRounded_ofUnits (s : Bool) (n : Nat) :
    (ofUnits s n).IsRounded s (signed s (n / unitsInOne)) := by
  have habs : |signed s ((n : ℚ) / unitsInOne)| = n / unitsInOne := by
    rw [abs_signed, abs_of_nonneg (div_nonneg (Nat.cast_nonneg n) unitsInOne_pos.le)]
  exact ⟨fun h => exists_ofUnits s (habs ▸ h), fun h => ofUnits_infinite s (habs ▸ h)⟩

end Binary64

end ModuleRoster
