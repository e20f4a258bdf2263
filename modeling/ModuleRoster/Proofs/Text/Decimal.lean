import ModuleRoster.Proofs.Text.Numeral

/-!
# Proofs/Text/Decimal — decimal numerals, with and without places

A numeral has no zero in front that it could do without (`IsNumeral`), and this is how
`Nat.toDigits` writes a number (`isNumeral_toDigits`).  A decimal numeral with three places is such a
numeral, a point and three digits, perhaps behind a hyphen (`IsDecimal`).  Sign and number are read
off the text (`IsDecimal.unique`).
-/

namespace ModuleRoster.Text

variable {n k j : Nat} {s s' : Bool} {t : Text}

/-! ## Whole numbers -/

/-- **A text is the numeral of a natural number**: digits, at least one, that make the number in base
ten, and the first is no zero unless it stands alone. -/
structure IsNumeral (t : Text) (n : Nat) : Prop where
  ne_nil : t ≠ []
  isDigit : ∀ c ∈ t, c.isDigit = true
  alone : t.head? = some '0' → t = ['0']
  value : Nat.ofDigitChars 10 t 0 = n

theorem head?_toDigits (h : 0 < n) : (Nat.toDigits 10 n).head? ≠ some '0' := by
  induction n using Nat.strongRecOn with
  | ind n ih =>
    rcases Nat.lt_or_ge n 10 with small | large
    · rw [Nat.toDigits_of_lt_base small]
      have hdigit : ∀ n < 10, 0 < n → Nat.digitChar n ≠ '0' := by decide
      simpa using hdigit n small h
    · rw [Nat.toDigits_of_base_le (by decide) large,
        List.head?_append_of_ne_nil _ Nat.toDigits_ne_nil]
      exact ih (n / 10) (by omega) (by omega)

/-- **A number is written as its numeral.** -/
theorem isNumeral_toDigits (n : Nat) : IsNumeral (Nat.toDigits 10 n) n where
  ne_nil := Nat.toDigits_ne_nil
  isDigit _ hc := Nat.isDigit_of_mem_toDigits (by decide) (by decide) hc
  alone h := by
    rcases Nat.eq_zero_or_pos n with rfl | hn
    · rfl
    · exact absurd h (head?_toDigits hn)
  value := Nat.ofDigitChars_toDigits (by decide) (by decide)

/-! ## Three places -/

/-- **A text is the decimal numeral with three places** of a number of thousandths with a sign: a
hyphen if it is negative, the numeral of the whole part, a point, and three digits. -/
def IsDecimal (t : Text) (negative : Bool) (k : Nat) : Prop :=
  ∃ whole places : Text, t = (if negative then ['-'] else []) ++ whole ++ '.' :: places ∧
    IsNumeral whole (k / 1000) ∧ places.length = 3 ∧ (∀ c ∈ places, c.isDigit = true) ∧
    Nat.ofDigitChars 10 places 0 = k % 1000

/-- Zeros in front do not count. -/
theorem ofDigitChars_zeros (t : Text) : ∀ k,
    Nat.ofDigitChars 10 (List.replicate k '0' ++ t) 0 = Nat.ofDigitChars 10 t 0
  | 0 => rfl
  | k + 1 => ofDigitChars_zeros t k

theorem isDecimal_digits (s : Bool) (k : Nat) :
    IsDecimal ((if s then ['-'] else []) ++ digits 10 1 (k / 1000) ++ ['.'] ++
      digits 10 3 (k % 1000)) s k := by
  have hwhole : digits 10 1 (k / 1000) = Nat.toDigits 10 (k / 1000) := by
    have hlength : 0 < (Nat.toDigits 10 (k / 1000)).length :=
      List.length_pos_iff.2 Nat.toDigits_ne_nil
    rw [digits, Nat.sub_eq_zero_of_le hlength]
    rfl
  refine ⟨Nat.toDigits 10 (k / 1000), digits 10 3 (k % 1000), by simp [hwhole],
    isNumeral_toDigits _, length_digits (by decide) (Nat.mod_lt k (by decide)), fun c hc => ?_, ?_⟩
  · rcases List.mem_append.1 hc with hc | hc
    · rw [List.eq_of_mem_replicate hc]
      decide
    · exact Nat.isDigit_of_mem_toDigits (by decide) (by decide) hc
  · rw [digits, ofDigitChars_zeros]
    exact Nat.ofDigitChars_toDigits (by decide) (by decide)

theorem IsDecimal.point_mem (h : IsDecimal t s k) : '.' ∈ t := by
  obtain ⟨whole, places, rfl, -⟩ := h
  exact List.mem_append_right _ List.mem_cons_self

/-- **Sign and number are read off a decimal numeral.** -/
theorem IsDecimal.unique (h : IsDecimal t s k) (h' : IsDecimal t s' j) : s = s' ∧ k = j := by
  obtain ⟨whole, places, rfl, hwhole, -, hplaces, hvalue⟩ := h
  obtain ⟨whole', places', heq, hwhole', -, hplaces', hvalue'⟩ := h'
  have noPoint : ∀ t : Text, (∀ c ∈ t, c.isDigit = true) → '.' ∉ t := fun t ht h =>
    absurd (ht _ h) (by decide)
  obtain ⟨hfront, rfl⟩ := cut_last (noPoint _ hplaces) (noPoint _ hplaces') heq
  have noHyphen : ∀ (t u : Text) (n : Nat), IsNumeral t n → '-' :: u ≠ t := by
    rintro _ u n ht rfl
    exact absurd (ht.isDigit '-' List.mem_cons_self) (by decide)
  have hparts : s = s' ∧ whole = whole' := by
    cases s <;> cases s' <;> simp at hfront ⊢
    · exact hfront
    · exact noHyphen _ _ _ hwhole hfront.symm
    · exact noHyphen _ _ _ hwhole' hfront
    · exact hfront
  obtain ⟨rfl, rfl⟩ := hparts
  have hk := hwhole.value.symm.trans hwhole'.value
  have hj := hvalue.symm.trans hvalue'
  exact ⟨rfl, by omega⟩

end ModuleRoster.Text
