import Mathlib.Data.List.Basic
import Mathlib.Data.Nat.Digits.Defs
import ModuleRoster.Text.Numeral

/-!
# Proofs/Text/Numeral — numerals behind a hyphen

A numeral is a sign and digits, and the sign is a hyphen too.  A numeral at the end of a text and
behind a hyphen is told by the text (`append_ofInt_inj`): the last hyphen stands before its digits,
and another one next to it means that one of the two is the sign, if what stands in front ends in no
hyphen.  A natural number has no sign, so nothing need be known of what stands in front
(`append_ofInt_natCast_inj`).
-/

namespace ModuleRoster.Text

variable {i j : Int} {n m : Nat} {c : Char} {d e x y : Text}

/-- **A text is cut in one way at the last place of a character.** -/
theorem cut_last (hx : c ∉ x) (hy : c ∉ y) (h : d ++ c :: x = e ++ c :: y) : d = e ∧ x = y := by
  rcases List.append_eq_append_iff.1 h with ⟨_ | ⟨b, a⟩, rfl, hrest⟩ | ⟨_ | ⟨b, a⟩, rfl, hrest⟩
  · simpa using hrest
  · obtain ⟨rfl, rfl⟩ := List.cons.inj hrest
    simp at hx
  · simpa [eq_comm] using hrest
  · obtain ⟨rfl, rfl⟩ := List.cons.inj hrest
    simp at hy

/-- **A numeral that is filled up has the width that was asked for**, if the number fits. -/
theorem length_digits {base width : Nat} (hwidth : 0 < width) (h : n < base ^ width) :
    (digits base width n).length = width := by
  have hlength : (Nat.toDigits base n).length ≤ width := Nat.toDigits_length base n width hwidth h
  simp only [digits, List.length_append, List.length_replicate]
  omega

/-! ## Signs and digits -/

/-- The sign of a numeral. -/
def sign (i : Int) : Text := if i < 0 then ['-'] else []

theorem sign_eq_or (i : Int) : sign i = [] ∨ sign i = ['-'] := by
  unfold sign
  split <;> simp

theorem ofInt_eq : ∀ i : Int, ofInt i = sign i ++ Nat.toDigits 10 i.natAbs
  | .ofNat _ => rfl
  | .negSucc n => by simp [ofInt, sign, Int.negSucc_lt_zero]

theorem hyphen_notMem_toDigits (n : Nat) : '-' ∉ Nat.toDigits 10 n := fun h =>
  absurd (Nat.isDigit_of_mem_toDigits (by decide) (by decide) h) (by decide)

theorem toDigits_injective (h : Nat.toDigits 10 n = Nat.toDigits 10 m) : n = m := by
  have hvalue := congrArg (Nat.ofDigitChars 10 · 0) h
  simpa [Nat.ofDigitChars_toDigits] using hvalue

/-- A number is told by its sign and its digits. -/
theorem eq_of_sign_of_toDigits (hsign : sign i = sign j)
    (hdigits : Nat.toDigits 10 i.natAbs = Nat.toDigits 10 j.natAbs) : i = j := by
  have habs := toDigits_injective hdigits
  have hneg : i < 0 ↔ j < 0 := by
    by_cases hi : i < 0 <;> by_cases hj : j < 0 <;> simp [sign, hi, hj] at hsign ⊢
  omega

/-- A numeral ends in a digit. -/
theorem getLast?_append_ofInt (x : Text) (i : Int) : (x ++ ofInt i).getLast? ≠ some '-' := by
  intro h
  rw [ofInt_eq, ← List.append_assoc, List.getLast?_append_of_ne_nil _ Nat.toDigits_ne_nil] at h
  exact hyphen_notMem_toDigits _ (List.mem_of_getLast? h)

/-! ## Numerals at the end of a text -/

/-- **A numeral behind a hyphen is told by the text**, if no other hyphen stands before that one. -/
theorem append_ofInt_inj (hx : x.getLast? ≠ some '-') (hy : y.getLast? ≠ some '-')
    (h : x ++ '-' :: ofInt i = y ++ '-' :: ofInt j) : x = y ∧ i = j := by
  -- the hyphen and a sign behind it can change places
  have shift : ∀ (x : Text) (i : Int), x ++ '-' :: ofInt i
      = (x ++ sign i) ++ '-' :: Nat.toDigits 10 i.natAbs := by
    intro x i
    rw [ofInt_eq]
    rcases sign_eq_or i with hi | hi <;> simp [hi]
  rw [shift, shift] at h
  obtain ⟨hfront, hdigits⟩ := cut_last (hyphen_notMem_toDigits _) (hyphen_notMem_toDigits _) h
  have hsign : sign i = sign j := by
    rcases sign_eq_or i with hi | hi <;> rcases sign_eq_or j with hj | hj <;>
      rw [hi, hj] at hfront ⊢
    · exact absurd (by rw [← List.append_nil x, hfront]; simp) hx
    · exact absurd (by rw [← List.append_nil y, ← hfront]; simp) hy
  rw [hsign] at hfront
  exact ⟨List.append_cancel_right hfront, eq_of_sign_of_toDigits hsign hdigits⟩

/-- **A natural number behind a hyphen is told by the text**, whatever stands before. -/
theorem append_ofInt_natCast_inj (h : x ++ '-' :: ofInt n = y ++ '-' :: ofInt m) :
    x = y ∧ n = m := by
  obtain ⟨hfront, hdigits⟩ := cut_last (hyphen_notMem_toDigits n) (hyphen_notMem_toDigits m) h
  exact ⟨hfront, toDigits_injective hdigits⟩

/-- **A numeral tells its number.** -/
theorem ofInt_injective (h : ofInt i = ofInt j) : i = j :=
  (append_ofInt_inj (x := []) (y := []) (by simp) (by simp) (congrArg ('-' :: ·) h)).2

end ModuleRoster.Text
