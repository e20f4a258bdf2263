import ModuleRoster.Proofs.AtomicWrite.NameParts
import ModuleRoster.Proofs.Number.Doubles
import ModuleRoster.Proofs.Text.Decimal

/-!
# Proofs/AtomicWrite/Timestamp — the nanoseconds in a temporary name

The clock shows seconds in double precision.  Their product with `10 ^ 9` is rounded once, to the
nearest double, and the whole part of that double is what stands in the temporary name
(`exists_temporaryName`).  Both steps keep the order, so a later clock gives no lower number
(`temporaryName_atNearest`).
-/

namespace ModuleRoster

/-- **The whole part of a number**, toward zero. -/
def wholePart (q : ℚ) : ℤ := if q < 0 then ⌈q⌉ else ⌊q⌋

/-- **The whole part keeps the order.** -/
theorem wholePart_mono {q r : ℚ} (h : q ≤ r) : wholePart q ≤ wholePart r := by
  unfold wholePart
  split
  next hq =>
    split
    next => exact Int.ceil_mono h
    next hr => exact (Int.ceil_nonpos.2 hq.le).trans (Int.floor_nonneg.2 (not_lt.1 hr))
  next hq =>
    rw [if_neg (not_lt.2 ((not_lt.1 hq).trans h))]
    exact Int.floor_mono h

variable {path path' : Text} {pid pid' : Int} {now now' : Binary64} {c c' v : ℚ}

namespace Binary64

/-- **A finite double is cut off to the whole part of its number.** -/
theorem truncate_finite (s : Bool) (m : Magnitude) :
    (Binary64.finite s m).truncate = .ok (wholePart (signed s m.value)) := by
  have hfloor : ⌊m.value⌋ = (m.floor : ℤ) := by
    rw [Magnitude.value, Rat.floor_natCast_div_natCast, Magnitude.floor, Int.natCast_ediv]
  have hm := m.value_nonneg
  simp only [truncate, wholePart]
  cases s with
  | false => simp [not_lt.2 hm, hfloor]
  | true =>
    rcases hm.eq_or_lt with hzero | hpos
    · have hfloor : (m.floor : ℤ) = 0 := by rw [← hfloor, ← hzero, Int.floor_zero]
      simp [← hzero, hfloor]
    · simp [hpos, Int.ceil_neg, hfloor]

theorem scale_finite (s : Bool) (m : Magnitude) (k : Nat) :
    (Binary64.finite s m).scale k = ofUnits s (m.units * k) := rfl

/-- The nanoseconds of a finite reading, before they are rounded: a number of units with the sign of
the reading. -/
theorem exists_scale (s : Bool) (m : Magnitude) : ∃ n : ℕ,
    (Binary64.finite s m).scale 1000000000 = ofUnits s n ∧
      |signed s m.value| * 10 ^ 9 = n / unitsInOne ∧
      signed s m.value * 10 ^ 9 = signed s (n / unitsInOne) := by
  have hproduct : ((m.units * 1000000000 : ℕ) : ℚ) / unitsInOne = m.value * 10 ^ 9 := by
    have hbillion : ((1000000000 : ℕ) : ℚ) = 10 ^ 9 := by norm_num
    rw [Magnitude.value, Nat.cast_mul, div_mul_eq_mul_div, hbillion]
  refine ⟨m.units * 1000000000, scale_finite s m _, ?_, ?_⟩
  · rw [abs_signed, abs_of_nonneg m.value_nonneg, hproduct]
  · rw [hproduct]
    cases s <;> simp

end Binary64

/-! ## The number in a name -/

/-- **A finite clock reading gives the whole part of the double nearest to its nanoseconds**, if
these are not too many. -/
theorem exists_temporaryName (hc : now.value? = some c)
    (h : |c| * 10 ^ 9 < 2 ^ 1024 - 2 ^ 970) :
    ∃ v, IsNearest IsDouble IsEvenDouble (c * 10 ^ 9) v ∧ ∀ path pid,
      temporaryName path pid now = .ok (temporaryNameAt path pid (wholePart v)) := by
  obtain ⟨s, m, rfl, rfl⟩ := Binary64.value?_eq_some_iff.1 hc
  obtain ⟨n, hscale, habs, hsigned⟩ := Binary64.exists_scale s m
  obtain ⟨m', hm', hnearest⟩ := Binary64.exists_ofUnits s (habs ▸ h)
  refine ⟨signed s m'.value, hsigned ▸ hnearest, fun path pid => ?_⟩
  rw [temporaryName, hscale, hm', Binary64.truncate_finite]
  rfl

theorem temporaryName_of_great (hc : now.value? = some c)
    (h : 2 ^ 1024 - 2 ^ 970 ≤ |c| * 10 ^ 9) : temporaryName path pid now = .error .infinite := by
  obtain ⟨s, m, rfl, rfl⟩ := Binary64.value?_eq_some_iff.1 hc
  obtain ⟨n, hscale, habs, -⟩ := Binary64.exists_scale s m
  rw [temporaryName, hscale, Binary64.ofUnits_infinite s (habs ▸ h)]
  rfl

/-- Is the product of a reading with `10 ^ 9` beyond the doubles? -/
def IsBeyond (now : Binary64) : Prop :=
  (∃ s, now = .infinite s) ∨
    ∃ c, now.value? = some c ∧ 2 ^ 1024 - 2 ^ 970 ≤ |c| * 10 ^ 9

/-- **A reading is no number, or too great, or it has a name.** -/
theorem temporaryName_cases (path : Text) (pid : Int) (now : Binary64) :
    (now = .nan ∧ temporaryName path pid now = .error .nan) ∨
      (now ≠ .nan ∧ IsBeyond now ∧ temporaryName path pid now = .error .infinite) ∨
      (now ≠ .nan ∧ ¬ IsBeyond now ∧
        ∃ ns, temporaryName path pid now = .ok (temporaryNameAt path pid ns)) := by
  cases now with
  | nan => exact Or.inl ⟨rfl, rfl⟩
  | infinite s => exact Or.inr (Or.inl ⟨nofun, Or.inl ⟨s, rfl⟩, rfl⟩)
  | finite s m =>
    refine Or.inr ?_
    have hc : (Binary64.finite s m).value? = some (signed s m.value) := rfl
    rcases lt_or_ge (|signed s m.value| * 10 ^ 9) (2 ^ 1024 - 2 ^ 970) with h | h
    · obtain ⟨v, -, hname⟩ := exists_temporaryName hc h
      refine Or.inr ⟨nofun, ?_, _, hname path pid⟩
      rintro (⟨t, ht⟩ | ⟨c, hc', hle⟩)
      · cases ht
      · cases hc.symm.trans hc'
        exact not_lt.2 hle h
    · exact Or.inl ⟨nofun, Or.inr ⟨_, hc, h⟩, temporaryName_of_great hc h⟩

/-- The number in a name is the one that the clock gives. -/
theorem exists_isNearest_of_name {ns : ℤ} (hc : now.value? = some c)
    (hname : temporaryName path pid now = .ok (temporaryNameAt path pid ns)) :
    ∃ v, IsNearest IsDouble IsEvenDouble (c * 10 ^ 9) v ∧ ns = wholePart v := by
  rcases lt_or_ge (|c| * 10 ^ 9) (2 ^ 1024 - 2 ^ 970) with h | h
  · obtain ⟨v, hv, hname'⟩ := exists_temporaryName hc h
    have hsame := Except.ok.inj (hname.symm.trans (hname' path pid))
    exact ⟨v, hv, (temporaryNameAt_cut hsame).2⟩
  · cases hname.symm.trans (temporaryName_of_great hc h)

/-- **The number in a temporary name is that of the clock, rounded and cut off.**  Without a number
there is no name, and without a finite one neither: the product is infinite from the middle behind
the last double on.  Every other reading `c` gives the whole part of the double nearest to
`c * 10 ^ 9`, in all its digits, and a later reading gives no lower number. -/
theorem temporaryName_atNearest :
    (∀ (path : Text) (pid : Int) (now : Binary64),
      (temporaryName path pid now = .error .nan ↔ now = .nan) ∧
      (temporaryName path pid now = .error .infinite ↔ (∃ s, now = .infinite s) ∨
        ∃ c, now.value? = some c ∧ 2 ^ 1024 - 2 ^ 970 ≤ |c| * 10 ^ 9) ∧
      ∀ c, now.value? = some c → |c| * 10 ^ 9 < 2 ^ 1024 - 2 ^ 970 → ∃ v digits,
        (∀ x, IsNearest IsDouble IsEvenDouble (c * 10 ^ 9) x ↔ x = v) ∧
        Text.IsNumeral digits (wholePart v).natAbs ∧
        temporaryName path pid now = .ok (path ++ '-' :: Text.ofInt pid ++
          '-' :: ((if wholePart v < 0 then ['-'] else []) ++ digits))) ∧
    ∀ (path path' : Text) (pid pid' : Int) (now now' : Binary64) (c c' : ℚ) (ns ns' : ℤ),
      now.value? = some c → now'.value? = some c' → c ≤ c' →
      temporaryName path pid now = .ok (temporaryNameAt path pid ns) →
      temporaryName path' pid' now' = .ok (temporaryNameAt path' pid' ns') → ns ≤ ns' := by
  refine ⟨fun path pid now => ⟨?_, ?_, fun c hc h => ?_⟩, ?_⟩
  · rcases temporaryName_cases path pid now with ⟨rfl, hname⟩ | ⟨h, -, hname⟩ | ⟨h, -, ns, hname⟩
    · simp [hname]
    · simp [hname, h]
    · simp [hname, h]
  · change _ ↔ IsBeyond now
    rcases temporaryName_cases path pid now with ⟨rfl, hname⟩ | ⟨-, h, hname⟩ | ⟨-, h, ns, hname⟩
    · simp [hname, IsBeyond, Binary64.value?]
    · simp [hname, h]
    · simp [hname, h]
  · obtain ⟨v, hv, hname⟩ := exists_temporaryName hc h
    refine ⟨v, _, fun x => isGrid_doubles.isNearest_iff hv, Text.isNumeral_toDigits _, ?_⟩
    rw [hname, temporaryNameAt, Text.ofInt_eq (wholePart v), Text.sign]
  · intro path path' pid pid' now now' c c' ns ns' hc hc' hle hname hname'
    obtain ⟨v, hv, hns⟩ := exists_isNearest_of_name hc hname
    obtain ⟨v', hv', hns'⟩ := exists_isNearest_of_name hc' hname'
    rw [hns, hns']
    exact wholePart_mono (isGrid_doubles.mono hv hv' (by linarith))

/-- Half a second before the clock's zero, and so late that its nanoseconds have to be rounded. -/
theorem temporaryName_atNearest_late :
    (Binary64.ofBits 0xbfe0000000000000).value? = some (-1 / 2) ∧
      (Binary64.ofBits 0x4340000000000001).value? = some 9007199254740994 ∧
      (∃ v digits,
        (∀ x, IsNearest IsDouble IsEvenDouble (9007199254740994 * 10 ^ 9) x ↔ x = v) ∧
        Text.IsNumeral digits (wholePart v).natAbs ∧
        temporaryName "a".toList 1 (Binary64.ofBits 0x4340000000000001) = .ok ("a".toList ++
          '-' :: Text.ofInt 1 ++ '-' :: ((if wholePart v < 0 then ['-'] else []) ++ digits))) ∧
      (-500000000 : ℤ) ≤ 9007199254740994147483648 := by
  have before : (Binary64.ofBits 0xbfe0000000000000).value? = some (-1 / 2) := by decide +kernel
  have late : (Binary64.ofBits 0x4340000000000001).value? = some 9007199254740994 := by
    decide +kernel
  have named : ∀ (result : Except Binary64.NoInteger Text) (name : Text),
      result.toOption = some name → result = .ok name := by
    rintro (_ | _) _ ⟨⟩
    rfl
  refine ⟨before, late, ?_, ?_⟩
  · exact (temporaryName_atNearest.1 "a".toList 1 _).2.2 _ late (by decide +kernel)
  · exact temporaryName_atNearest.2 "a".toList "a".toList 1 1 _ _ _ _ _ _ before late (by norm_num)
      (named _ _ (by decide +kernel)) (named _ _ (by decide +kernel))

end ModuleRoster
