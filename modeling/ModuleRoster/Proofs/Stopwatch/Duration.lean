import Mathlib.Order.WithBot
import ModuleRoster.Proofs.Number.Doubles
import ModuleRoster.Proofs.Text.Decimal
import ModuleRoster.Stopwatch

/-!
# Proofs/Stopwatch/Duration — the seconds in the log

A difference of two clock readings is the double nearest to the exact one (`exists_isRounded_sub`),
and it is noted with three places.  What is printed of a finite double is the decimal numeral of its
nearest thousandth (`isNearest_thousandths`), with the sign that the double has, so it is at most
half a thousandth off and keeps the order (`took_nearestThousandth`).

If the second reading is not below the first one, the difference has no sign, or it is zero
(`Binary64.exists_sub_of_le`), and what is printed of it is read as a number (`isSeconds_ofUnits`)
that is not below zero and grows with the difference (`secondsOf_mono`).
-/

namespace ModuleRoster

variable {n k : Nat} {s t : Bool} {m m' : Magnitude} {x y : Binary64} {q r : ℚ} {text : Text}

/-! ## Thousandths -/

/-- **A magnitude is printed as its nearest thousandth.** -/
theorem isNearest_thousandths (s : Bool) (m : Magnitude) :
    IsNearest (IsMultiple (1 / 1000)) (IsEvenMultiple (1 / 1000)) (signed s m.value)
      (signed s (m.thousandths / 1000)) := by
  have hnearest := isNearest_roundDiv (n := m.units * 1000) (w := 1 / 1000)
    (twoPow_pos unitExponent) (by norm_num)
  have hvalue : ((m.units * 1000 : ℕ) : ℚ) / (twoPow unitExponent : ℕ) * (1 / 1000) = m.value := by
    rw [Magnitude.value, unitsInOne, Nat.cast_mul, Nat.cast_ofNat, mul_one_div, div_right_comm,
      mul_div_cancel_right₀ _ (by norm_num)]
  rw [hvalue, mul_one_div] at hnearest
  cases s with
  | false => exact hnearest
  | true => exact (isGrid_multiples (by norm_num)).neg hnearest

theorem isDecimal_toThousandths (s : Bool) (m : Magnitude) :
    Text.IsDecimal (Binary64.finite s m).toThousandths s m.thousandths :=
  Text.isDecimal_digits s m.thousandths

/-- The sign is noted also before a zero: here of the greatest negative double. -/
example : (Binary64.ofBits 0x8000000000000001).toThousandths = "-0.000".toList := by
  decide +kernel

/-- The number that is printed of a finite double. -/
theorem exists_printed (hx : x.value? = some q) : ∃ s m, x = .finite s m ∧
    Text.IsDecimal x.toThousandths s m.thousandths ∧
    IsNearest (IsMultiple (1 / 1000)) (IsEvenMultiple (1 / 1000)) q
      (signed s (m.thousandths / 1000)) := by
  obtain ⟨s, m, rfl, rfl⟩ := Binary64.value?_eq_some_iff.1 hx
  exact ⟨s, m, rfl, isDecimal_toThousandths s m, isNearest_thousandths s m⟩

/-! ## Differences -/

namespace Binary64

theorem sub_of_ne (h : s ≠ t) (m m' : Magnitude) :
    (Binary64.finite s m).sub (.finite t m') = ofUnits s (m.units + m'.units) := by
  simp only [sub, bne_iff_ne, ne_eq, h, not_false_eq_true, if_true]

theorem sub_of_eq (s : Bool) (h : m.units = m'.units) :
    (Binary64.finite s m).sub (.finite s m') = ofUnits false 0 := by
  simp only [sub, bne_self_eq_false, Bool.false_eq_true, if_false]
  rw [if_pos h, zero]

theorem sub_of_gt (s : Bool) (h : m'.units < m.units) :
    (Binary64.finite s m).sub (.finite s m') = ofUnits s (m.units - m'.units) := by
  simp only [sub, bne_self_eq_false, Bool.false_eq_true, if_false]
  rw [if_neg h.ne', if_pos h]

theorem sub_of_lt (s : Bool) (h : m.units < m'.units) :
    (Binary64.finite s m).sub (.finite s m') = ofUnits (!s) (m'.units - m.units) := by
  simp only [sub, bne_self_eq_false, Bool.false_eq_true, if_false]
  rw [if_neg h.ne, if_neg h.not_gt]

/-- **Numbers with one sign**: the difference is negative if it is below zero. -/
theorem exists_sub_same (s : Bool) (m m' : Magnitude) :
    ∃ u n, (Binary64.finite s m).sub (.finite s m') = ofUnits u n ∧
      signed u (n / unitsInOne) = signed s m.value - signed s m'.value ∧
      (u = true ↔ signed s m.value < signed s m'.value) := by
  rcases lt_trichotomy m.units m'.units with h | h | h
  · have hlt : m.value < m'.value := units_div_lt_iff.2 h
    refine ⟨!s, _, sub_of_lt s h, ?_, ?_⟩
    · rw [Nat.cast_sub h.le, sub_div]
      change signed (!s) (m'.value - m.value) = _
      rw [signed_not, signed_sub, neg_sub]
    · cases s <;> simp [hlt, hlt.le]
  · have heq : m.value = m'.value := by rw [Magnitude.value, h, Magnitude.value]
    refine ⟨false, 0, sub_of_eq s h, ?_, ?_⟩
    · rw [heq, sub_self, Nat.cast_zero, zero_div, signed_false]
    · simp [heq]
  · have hlt : m'.value < m.value := units_div_lt_iff.2 h
    refine ⟨s, _, sub_of_gt s h, ?_, ?_⟩
    · rw [Nat.cast_sub h.le, sub_div]
      exact signed_sub s m.value m'.value
    · cases s <;> simp [hlt, hlt.le]

/-- **Numbers with two signs**: the difference has that of the first, also if both are zero. -/
theorem exists_sub_apart (h : s ≠ t) (m m' : Magnitude) :
    ∃ n, (Binary64.finite s m).sub (.finite t m') = ofUnits s n ∧
      signed s (n / unitsInOne) = signed s m.value - signed t m'.value ∧
      (s = true ↔ signed s m.value < signed t m'.value ∨
        signed s m.value = signed t m'.value ∧ s = true ∧ t = false) := by
  have hm := m.value_nonneg
  have hm' := m'.value_nonneg
  refine ⟨_, sub_of_ne h m m', ?_, ?_⟩
  · rw [Nat.cast_add, add_div, Bool.eq_not_of_ne h.symm, signed_not, sub_neg_eq_add]
    exact signed_add s m.value m'.value
  · obtain rfl := Bool.eq_not_of_ne h.symm
    cases s with
    | false =>
      simp only [Bool.not_false, signed_false, signed_true, Bool.false_eq_true, false_and,
        and_false, or_false, false_iff, not_lt]
      linarith
    | true =>
      simp only [Bool.not_true, signed_false, signed_true, true_iff, and_true]
      exact lt_or_eq_of_le (by linarith)

/-- **Every difference of finite doubles** is that of their numbers, rounded once.  A zero is
negative just if it is the negative zero less the positive one. -/
theorem exists_sub (hx : x.value? = some q) (hy : y.value? = some r) :
    ∃ s n, x.sub y = ofUnits s n ∧ signed s (n / unitsInOne) = q - r ∧
      (s = true ↔ q < r ∨ q = r ∧ x.isNegative = true ∧ y.isNegative = false) := by
  obtain ⟨s, m, rfl, rfl⟩ := value?_eq_some_iff.1 hx
  obtain ⟨t, m', rfl, rfl⟩ := value?_eq_some_iff.1 hy
  rcases eq_or_ne s t with rfl | hne
  · obtain ⟨u, n, hsub, hvalue, hsign⟩ := exists_sub_same s m m'
    exact ⟨u, n, hsub, hvalue, hsign.trans (by cases s <;> simp [isNegative])⟩
  · obtain ⟨n, hsub, hvalue, hsign⟩ := exists_sub_apart hne m m'
    exact ⟨s, n, hsub, hvalue, hsign⟩

/-- **A difference is rounded to the nearest double.** -/
theorem exists_isRounded_sub (hx : x.value? = some q) (hy : y.value? = some r) :
    ∃ negative : Bool,
      (negative = true ↔ q < r ∨ q = r ∧ x.isNegative = true ∧ y.isNegative = false) ∧
      (x.sub y).IsRounded negative (q - r) := by
  obtain ⟨s, n, hsub, hvalue, hsign⟩ := exists_sub hx hy
  refine ⟨s, hsign, ?_⟩
  rw [hsub, ← hvalue]
  exact isRounded_ofUnits s n

/-- A difference of readings that do not go back has no sign, or it is zero. -/
theorem exists_sub_of_le (hx : x.value? = some q) (hy : y.value? = some r) (h : r ≤ q) :
    ∃ s n, x.sub y = ofUnits s n ∧ (s = true → n = 0) ∧ (n : ℚ) / unitsInOne = q - r := by
  obtain ⟨s, n, hsub, hvalue, hsign⟩ := exists_sub hx hy
  cases s with
  | false => exact ⟨false, n, hsub, nofun, hvalue⟩
  | true =>
    have heq : q = r := (hsign.1 rfl).elim (fun hlt => absurd h hlt.not_ge) And.left
    have hzero : (n : ℚ) / unitsInOne = 0 := by
      rwa [heq, sub_self, signed_true, neg_eq_zero] at hvalue
    refine ⟨true, n, hsub, fun _ => ?_, by rw [hzero, heq, sub_self]⟩
    exact Nat.cast_eq_zero.1 ((div_eq_zero_iff.1 hzero).resolve_right unitsInOne_pos.ne')

end Binary64

/-! ## What is noted -/

/-- **A duration is noted as its nearest thousandth**, the even one of two that are equally near,
with a hyphen just if the sign bit of the difference is set.  So what is noted is at most half a
thousandth off, and it keeps the order.  The difference itself is the double that is nearest to the
exact difference of the two readings. -/
theorem took_nearestThousandth :
    (∀ (ε α : Type) (clock : Clock) (name : Text) (work : Nat → Trace ε α) (i : Nat),
      (timed clock name work i).log.map LogEntry.line = (work (i + 1)).log.map LogEntry.line ++
        ["DEBUG ".toList ++ (name ++ " took ".toList ++
          ((clock.read (work (i + 1)).next).sub (clock.read i)).toThousandths ++ ['s'])]) ∧
    (∀ (x y : Binary64) (q r : ℚ), x.value? = some q → y.value? = some r →
      ∃ negative : Bool,
        (negative = true ↔ q < r ∨ q = r ∧ x.isNegative = true ∧ y.isNegative = false) ∧
        (x.sub y).IsRounded negative (q - r)) ∧
    (∀ (x : Binary64) (d : ℚ), x.value? = some d → ∃ (bits : UInt64) (s : Bool) (k : ℕ),
      Binary64.ofBits bits = x ∧ (s = true ↔ 2 ^ 63 ≤ bits.toNat) ∧
      Text.IsDecimal x.toThousandths s k ∧
      (∀ r, IsNearest (IsMultiple (1 / 1000)) (IsEvenMultiple (1 / 1000)) d r ↔
        r = signed s (k / 1000)) ∧
      |d - signed s (k / 1000)| ≤ 1 / 2000) ∧
    ∀ (x y : Binary64) (d e : ℚ) (s t : Bool) (k j : ℕ),
      x.value? = some d → y.value? = some e → d ≤ e →
      Text.IsDecimal x.toThousandths s k → Text.IsDecimal y.toThousandths t j →
      signed s (k / 1000) ≤ signed t (j / 1000) := by
  have grid : IsGrid (IsMultiple (1 / 1000)) (IsEvenMultiple (1 / 1000)) :=
    isGrid_multiples (by norm_num)
  refine ⟨fun ε α clock name work i => ?_, fun _ _ _ _ => Binary64.exists_isRounded_sub,
    fun x d hx => ?_, ?_⟩
  · simp only [timed, List.map_append, List.map_cons, List.map_nil]
    rfl
  · obtain ⟨s, m, rfl, hdecimal, hnearest⟩ := exists_printed hx
    obtain ⟨bits, hbits⟩ := Binary64.exists_ofBits s m
    refine ⟨bits, s, _, hbits, (Binary64.bits_of_ofBits hbits).1, hdecimal,
      fun r => grid.isNearest_iff hnearest, (hnearest.abs_sub_le (by norm_num)).trans ?_⟩
    norm_num
  · intro x y d e s t k j hx hy hle hdecimal hdecimal'
    obtain ⟨s', m, -, hprinted, hnearest⟩ := exists_printed hx
    obtain ⟨t', m', -, hprinted', hnearest'⟩ := exists_printed hy
    obtain ⟨hs, hk⟩ := hdecimal.unique hprinted
    obtain ⟨ht, hj⟩ := hdecimal'.unique hprinted'
    rw [hs, hk, ht, hj]
    exact grid.mono hnearest hnearest' hle

/-- Two durations just in the middle between thousandths: one goes down, the other one up.  Their
difference has no sign. -/
theorem took_nearestThousandth_ties :
    (Binary64.ofBits 0x3fb0000000000000).value? = some (1 / 16) ∧
      (Binary64.ofBits 0x3fc8000000000000).value? = some (3 / 16) ∧
      (Binary64.ofBits 0x3fb0000000000000).toThousandths = "0.062".toList ∧
      (Binary64.ofBits 0x3fc8000000000000).toThousandths = "0.188".toList ∧
      ((Binary64.ofBits 0x3fc8000000000000).sub (.ofBits 0x3fb0000000000000)).IsRounded false
        (3 / 16 - 1 / 16) ∧
      ∃ s t k j, Text.IsDecimal (Binary64.ofBits 0x3fb0000000000000).toThousandths s k ∧
        Text.IsDecimal (Binary64.ofBits 0x3fc8000000000000).toThousandths t j ∧
        signed s (k / 1000) ≤ signed t (j / 1000) := by
  have hx : (Binary64.ofBits 0x3fb0000000000000).value? = some (1 / 16) := by decide +kernel
  have hy : (Binary64.ofBits 0x3fc8000000000000).value? = some (3 / 16) := by decide +kernel
  obtain ⟨-, s, k, -, -, hdecimal, -, -⟩ := took_nearestThousandth.2.2.1 _ _ hx
  obtain ⟨-, t, j, -, -, hdecimal', -, -⟩ := took_nearestThousandth.2.2.1 _ _ hy
  obtain ⟨negative, hnegative, hrounded⟩ := took_nearestThousandth.2.1 _ _ _ _ hy hx
  obtain rfl : negative = false := by
    refine Bool.eq_false_iff.2 fun h => ?_
    rcases hnegative.1 h with hlt | ⟨heq, -⟩
    · norm_num at hlt
    · norm_num at heq
  exact ⟨hx, hy, by decide +kernel, by decide +kernel, hrounded, s, t, k, j, hdecimal, hdecimal',
    took_nearestThousandth.2.2.2 _ _ _ _ s t k j hx hy (by norm_num) hdecimal hdecimal'⟩

/-! ## Durations as numbers -/

/-- **What a duration is read as**: a decimal numeral as its number, whatever the sign of a zero,
and `inf` as more than every number. -/
inductive Text.IsSeconds : Text → WithTop ℚ → Prop
  | infinite : IsSeconds "inf".toList ⊤
  | decimal {t : Text} {s : Bool} {k : Nat} (h : Text.IsDecimal t s k) :
      IsSeconds t (signed s (k / 1000) : ℚ)

theorem Text.IsSeconds.ne_nan {d : WithTop ℚ} (h : Text.IsSeconds text d) :
    text ≠ "nan".toList := by
  rintro rfl
  cases h with
  | decimal h => exact absurd h.point_mem (by decide)

/-- **A text is read as one number at most.** -/
theorem Text.IsSeconds.unique {d e : WithTop ℚ} (hd : Text.IsSeconds text d)
    (he : Text.IsSeconds text e) : d = e := by
  cases hd with
  | infinite =>
    cases he with
    | infinite => rfl
    | decimal h => exact absurd h.point_mem (by decide)
  | decimal h =>
    cases he with
    | infinite => exact absurd h.point_mem (by decide)
    | decimal h' =>
      obtain ⟨hs, hk⟩ := h.unique h'
      rw [hs, hk]

/-- **The seconds that are noted of a number of units**: those of the nearest double, to the
thousandth. -/
def secondsOf (n : Nat) : WithTop ℚ :=
  match Magnitude.round? n with
  | some m => (m.thousandths / 1000 : ℚ)
  | none => ⊤

theorem secondsOf_of_some (h : Magnitude.round? n = some m) :
    secondsOf n = ((m.thousandths / 1000 : ℚ) : WithTop ℚ) := by
  unfold secondsOf
  rw [h]

theorem secondsOf_of_none (h : Magnitude.round? n = none) : secondsOf n = ⊤ := by
  unfold secondsOf
  rw [h]

theorem secondsOf_nonneg (n : Nat) : 0 ≤ secondsOf n := by
  cases h : Magnitude.round? n with
  | none => rw [secondsOf_of_none h]; exact le_top
  | some m =>
    rw [secondsOf_of_some h]
    exact_mod_cast div_nonneg (Nat.cast_nonneg _) (by norm_num)

/-- **More units are not noted as fewer seconds**: both roundings keep the order, and what is beyond
the doubles stays there. -/
theorem secondsOf_mono (h : n ≤ k) : secondsOf n ≤ secondsOf k := by
  cases hk : Magnitude.round? k with
  | none => rw [secondsOf_of_none hk]; exact le_top
  | some m' =>
    have hk' := Magnitude.round?_eq_some_iff.1 hk
    cases hn : Magnitude.round? n with
    | none =>
      have hn' := Magnitude.round?_eq_none_iff.1 hn
      omega
    | some m =>
      have hvalue : m.value ≤ m'.value :=
        isGrid_doubles.mono (isNearest_roundUnits (Magnitude.round?_eq_some_iff.1 hn).1)
          (isNearest_roundUnits hk'.1) (units_div_le_iff.2 h)
      have hthousandths := (isGrid_multiples (by norm_num)).mono (isNearest_thousandths false m)
        (isNearest_thousandths false m') hvalue
      rw [secondsOf_of_some hn, secondsOf_of_some hk]
      exact WithTop.coe_le_coe.2 hthousandths

theorem Magnitude.round?_zero_ne_none : Magnitude.round? 0 ≠ none := by
  rw [Ne, Magnitude.round?_eq_none_iff, not_le, Nat.zero_add]
  calc twoPow 2044 < twoPow 2045 := by
        have hpos := twoPow_pos 2044
        rw [twoPow_2045]
        omega
    _ ≤ unitLimit := twoPow_le_unitLimit (by decide)

theorem Magnitude.thousandths_zero (h : Magnitude.round? 0 = some m) : m.thousandths = 0 := by
  have hunits : m.units = 0 := (Magnitude.round?_eq_some_iff.1 h).1
  rw [Magnitude.thousandths, hunits, Nat.zero_mul]
  exact roundDiv_zero (twoPow_pos unitExponent)

/-- **A number of units without a sign is noted as its seconds**, and so is the negative zero. -/
theorem isSeconds_ofUnits (h : s = true → n = 0) :
    Text.IsSeconds (Binary64.ofUnits s n).toThousandths (secondsOf n) := by
  cases hround : Magnitude.round? n with
  | none =>
    rw [secondsOf_of_none hround, Binary64.ofUnits_of_none s hround]
    cases s with
    | false => exact .infinite
    | true =>
      rw [h rfl] at hround
      exact absurd hround Magnitude.round?_zero_ne_none
  | some m =>
    rw [secondsOf_of_some hround, Binary64.ofUnits_of_some s hround]
    have hread := Text.IsSeconds.decimal (isDecimal_toThousandths s m)
    cases s with
    | false => exact hread
    | true =>
      rw [h rfl] at hround
      have hzero : ((m.thousandths : ℕ) : ℚ) / 1000 = 0 := by
        rw [Magnitude.thousandths_zero hround, Nat.cast_zero, zero_div]
      rwa [hzero, signed_true, neg_zero, ← hzero] at hread

end ModuleRoster
