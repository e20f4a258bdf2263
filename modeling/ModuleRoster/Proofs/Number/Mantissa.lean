import ModuleRoster.Number.Binary64

/-!
# Proofs/Number/Mantissa — the significant bits of a double

A magnitude is a mantissa of at most 53 bits, shifted by as many places as its number of units has
bits beyond that (`Magnitude.units_eq`); the mantissa is shorter only if it is not shifted.  So sign,
shift and mantissa make up the bit pattern of a finite double, and each finite double has just one
(`Binary64.ofBits_eq_finite_iff`).  The last bit of the pattern is the last one of the mantissa.
-/

namespace ModuleRoster

namespace Magnitude

variable {n k c e fraction exponent : Nat} {m m' : Magnitude}

/-! ## The bits beyond 53 -/

theorem lt_twoPow_excess (n : Nat) : n < twoPow (53 + excess n) :=
  Nat.lt_of_lt_of_le (lt_twoPow_log2 n) (twoPow_le_twoPow (by unfold excess; omega))

theorem excess_le (h : n < twoPow (53 + k)) : excess n ≤ k := by
  unfold excess
  rcases Nat.eq_zero_or_pos n with rfl | hn
  · simp
  · have hlog : n.log2 < 53 + k := (Nat.log2_lt (Nat.ne_of_gt hn)).2 h
    omega

theorem le_excess (h : twoPow (52 + k) ≤ n) : k ≤ excess n := by
  have hn : n ≠ 0 := Nat.ne_of_gt (Nat.lt_of_lt_of_le (twoPow_pos _) h)
  have hlog : 52 + k ≤ n.log2 := (Nat.le_log2 hn).2 h
  unfold excess
  omega

/-- A number with bits beyond 53 has its first bit in front of the 52 that follow. -/
theorem twoPow_le_of_excess (h : excess n ≠ 0) : twoPow (52 + excess n) ≤ n := by
  have hlog : 52 + excess n = n.log2 := by
    unfold excess at h ⊢
    omega
  have hn : n ≠ 0 := by
    rintro rfl
    exact h rfl
  rw [hlog]
  exact Nat.log2_self_le hn

theorem excess_mono (h : n ≤ k) : excess n ≤ excess k :=
  excess_le (Nat.lt_of_le_of_lt h (lt_twoPow_excess k))

/-- A shifted mantissa has as many bits beyond 53 as it was shifted by. -/
theorem excess_shifted (hc : c < twoPow 53) (whole : twoPow 52 ≤ c ∨ e = 0) :
    excess (c * twoPow e) = e := by
  refine Nat.le_antisymm (excess_le ?_) ?_
  · rw [twoPow_add]
    exact Nat.mul_lt_mul_of_pos_right hc (twoPow_pos e)
  · rcases whole with whole | rfl
    · refine le_excess ?_
      rw [twoPow_add]
      exact Nat.mul_le_mul_right _ whole
    · exact Nat.zero_le _

/-! ## Mantissa and shift -/

/-- **Magnitudes of as many units are the same.** -/
theorem eq_of_units (h : m.units = m'.units) : m = m' := by
  cases m
  cases m'
  cases h
  rfl

/-- **The mantissa of a magnitude**: its first 53 bits, or all if there are fewer. -/
def mantissa (m : Magnitude) : Nat := m.units / twoPow (excess m.units)

theorem twoPow_excess_dvd (m : Magnitude) : twoPow (excess m.units) ∣ m.units := by
  obtain ⟨c, k, hc, hunits⟩ := m.isShort
  have hk : excess m.units ≤ k := by
    refine excess_le ?_
    rw [hunits, twoPow_add]
    exact Nat.mul_lt_mul_of_pos_right hc (twoPow_pos k)
  have hdvd : twoPow (excess m.units) ∣ c * twoPow k :=
    Nat.dvd_trans (Nat.pow_dvd_pow 2 hk) (Nat.dvd_mul_left _ _)
  rwa [← hunits] at hdvd

/-- **A magnitude is its mantissa, shifted.** -/
theorem units_eq (m : Magnitude) : m.units = m.mantissa * twoPow (excess m.units) :=
  (Nat.div_mul_cancel m.twoPow_excess_dvd).symm

theorem mantissa_lt (m : Magnitude) : m.mantissa < twoPow 53 := div_twoPow_excess_lt m.units

theorem mantissa_whole (m : Magnitude) : twoPow 52 ≤ m.mantissa ∨ excess m.units = 0 := by
  by_cases h : excess m.units = 0
  · exact Or.inr h
  · refine Or.inl ((Nat.le_div_iff_mul_le (twoPow_pos _)).2 ?_)
    rw [← twoPow_add]
    exact twoPow_le_of_excess h

theorem excess_units_le (m : Magnitude) : excess m.units ≤ 2045 := excess_le m.units_lt

/-- The mantissa and the shift are read off a magnitude that is given by them. -/
theorem mantissa_eq (hc : c < twoPow 53) (whole : twoPow 52 ≤ c ∨ e = 0)
    (hunits : m.units = c * twoPow e) : m.mantissa = c ∧ excess m.units = e := by
  have he : excess m.units = e := by rw [hunits, excess_shifted hc whole]
  refine ⟨?_, he⟩
  rw [mantissa, he, hunits, Nat.mul_div_cancel _ (twoPow_pos e)]

end Magnitude

/-! ## Bit patterns -/

namespace Binary64

variable {bits : UInt64} {s s' : Bool} {m m' : Magnitude}

/-- **The bit pattern of a finite double**, as a number: the sign, the shift and the mantissa; the
first bit of a whole mantissa raises the exponent by one. -/
def pattern (s : Bool) (m : Magnitude) : Nat :=
  (if s then twoPow 63 else 0) + (Magnitude.excess m.units * twoPow 52 + m.mantissa)

theorem twoPow_fields : twoPow 11 = 2048 ∧ twoPow 52 = 4503599627370496 ∧
    twoPow 53 = 9007199254740992 ∧ twoPow 63 = 9223372036854775808 := ⟨rfl, rfl, rfl, rfl⟩

/-- Exponent and fraction give the shift and the mantissa back. -/
theorem pattern_of_fields {exponent fraction : Nat} (he : exponent ≤ 2046)
    (hf : fraction < twoPow 52) :
    pattern s (if exponent = 0 then .subnormal fraction hf else .normal exponent fraction hf he)
      = (if s then twoPow 63 else 0) + (exponent * twoPow 52 + fraction) := by
  obtain ⟨-, h52, h53, -⟩ := twoPow_fields
  unfold pattern
  refine congrArg _ ?_
  by_cases hzero : exponent = 0
  · obtain ⟨hc, hshift⟩ := (Magnitude.subnormal fraction hf).mantissa_eq (e := 0)
      (Nat.lt_trans hf (by rw [h52, h53]; decide)) (Or.inr rfl) (Nat.mul_one fraction).symm
    rw [if_pos hzero, hc, hshift, hzero]
  · obtain ⟨hc, hshift⟩ := (Magnitude.normal exponent fraction hf he).mantissa_eq
      (Magnitude.twoPow_52_add_lt hf) (Or.inl (Nat.le_add_right _ _)) rfl
    rw [if_neg hzero, hc, hshift, h52]
    omega

/-- Bits whose exponent is not the last one are those of a finite double. -/
theorem exists_of_exponent (he : bits.toNat / twoPow 52 % twoPow 11 ≤ 2046) :
    ∃ s m, ofBits bits = .finite s m ∧ bits.toNat = pattern s m := by
  obtain ⟨h11, h52, -, h63⟩ := twoPow_fields
  have hf : bits.toNat % twoPow 52 < twoPow 52 := Nat.mod_lt _ (twoPow_pos 52)
  refine ⟨decide (twoPow 63 ≤ bits.toNat), _, by simp only [ofBits, he, dite_true]; rfl, ?_⟩
  have hlt : bits.toNat < 18446744073709551616 := bits.toNat_lt
  rw [pattern_of_fields he hf, h11, h52, h63]
  simp only [decide_eq_true_eq]
  split <;> omega

/-- A pattern fits into the 64 bits, and its exponent is not the last one. -/
theorem pattern_fits (s : Bool) (m : Magnitude) :
    pattern s m < UInt64.size ∧ pattern s m / twoPow 52 % twoPow 11 ≤ 2046 := by
  obtain ⟨h11, h52, h53, h63⟩ := twoPow_fields
  have hc := m.mantissa_lt
  have he := m.excess_units_le
  unfold pattern UInt64.size
  rw [h53] at hc
  rw [h11, h52, h63]
  split <;> omega

/-- **Sign, shift and mantissa are read off the pattern.** -/
theorem pattern_inj (h : pattern s m = pattern s' m') : s = s' ∧ m = m' := by
  obtain ⟨-, h52, h53, h63⟩ := twoPow_fields
  have hc := m.mantissa_lt
  have hc' := m'.mantissa_lt
  have hwhole := m.mantissa_whole
  have hwhole' := m'.mantissa_whole
  have he := m.excess_units_le
  have he' := m'.excess_units_le
  unfold pattern at h
  rw [h53] at hc hc'
  rw [h52] at hwhole hwhole' h
  rw [h63] at h
  have hparts : s = s' ∧ Magnitude.excess m.units = Magnitude.excess m'.units ∧
      m.mantissa = m'.mantissa := by
    cases s <;> cases s' <;> simp at h ⊢ <;> omega
  obtain ⟨rfl, hshift, hmantissa⟩ := hparts
  refine ⟨rfl, Magnitude.eq_of_units ?_⟩
  rw [m.units_eq, m'.units_eq, hshift, hmantissa]

/-- **A finite double has just one bit pattern.** -/
theorem ofBits_eq_finite_iff : ofBits bits = .finite s m ↔ bits.toNat = pattern s m := by
  constructor
  · intro h
    by_cases he : bits.toNat / twoPow 52 % twoPow 11 ≤ 2046
    · obtain ⟨s', m', h', hbits⟩ := exists_of_exponent he
      cases h'.symm.trans h
      exact hbits
    · simp only [ofBits, he, dite_false] at h
      split at h <;> cases h
  · intro hbits
    have he : bits.toNat / twoPow 52 % twoPow 11 ≤ 2046 := hbits ▸ (pattern_fits s m).2
    obtain ⟨s', m', h', hbits'⟩ := exists_of_exponent he
    obtain ⟨rfl, rfl⟩ := pattern_inj (hbits.symm.trans hbits')
    exact h'

/-- **Every finite double has a bit pattern.** -/
theorem exists_ofBits (s : Bool) (m : Magnitude) : ∃ bits, ofBits bits = .finite s m :=
  ⟨UInt64.ofNat (pattern s m),
    ofBits_eq_finite_iff.2 (UInt64.toNat_ofNat_of_lt' (pattern_fits s m).1)⟩

/-- **The first bit is the sign, and the last one that of the mantissa.** -/
theorem bits_of_ofBits (h : ofBits bits = .finite s m) :
    (s = true ↔ twoPow 63 ≤ bits.toNat) ∧ bits.toNat % 2 = m.mantissa % 2 := by
  obtain ⟨-, h52, h53, h63⟩ := twoPow_fields
  have hbits := ofBits_eq_finite_iff.1 h
  have hc := m.mantissa_lt
  have he := m.excess_units_le
  unfold pattern at hbits
  rw [h53] at hc
  rw [h52, h63] at hbits
  rw [h63]
  cases s <;> simp at hbits ⊢ <;> omega

end Binary64

end ModuleRoster
