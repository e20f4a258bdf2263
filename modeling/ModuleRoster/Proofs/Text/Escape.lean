import ModuleRoster.Proofs.Text.Numeral
import ModuleRoster.Text.Quoted

/-!
# Proofs/Text/Escape — the numeric escape of a character, read back

A numeral in hexadecimal stands for its number (`ofHex_hex`) and has the width that was asked for
(`length_hex`), so the escape of a character shows its code point (`isEscape_escapeCode`).
-/

namespace ModuleRoster.Text

variable {c : Char} {n : Nat}

/-! ## Hexadecimal numerals -/

/-- The digits of hexadecimal numerals, each at the place of its value. -/
def hexDigits : Text := "0123456789abcdef".toList

/-- The number that a hexadecimal numeral stands for. -/
def ofHex (t : Text) : Nat := t.foldl (fun n c => 16 * n + hexDigits.idxOf c) 0

theorem ofHex_append (t : Text) (c : Char) :
    ofHex (t ++ [c]) = 16 * ofHex t + hexDigits.idxOf c := by
  simp [ofHex]

theorem idxOf_digitChar : ∀ n < 16, hexDigits.idxOf (Nat.digitChar n) = n := by decide

theorem mem_digitChar : ∀ n < 16, Nat.digitChar n ∈ hexDigits := by decide

/-- The numeral of a number is that of its sixteenth part with a digit behind it. -/
theorem toDigits_of_base_le (h : 16 ≤ n) :
    Nat.toDigits 16 n = Nat.toDigits 16 (n / 16) ++ [Nat.digitChar (n % 16)] :=
  Nat.toDigits_of_base_le (by decide) h

theorem ofHex_toDigits (n : Nat) : ofHex (Nat.toDigits 16 n) = n := by
  induction n using Nat.strongRecOn with
  | ind n ih =>
    rcases Nat.lt_or_ge n 16 with small | large
    · rw [Nat.toDigits_of_lt_base small]
      simp [ofHex, idxOf_digitChar n small]
    · rw [toDigits_of_base_le large, ofHex_append, ih _ (by omega),
        idxOf_digitChar _ (Nat.mod_lt n (by decide))]
      omega

theorem mem_toDigits (n : Nat) : ∀ c ∈ Nat.toDigits 16 n, c ∈ hexDigits := by
  induction n using Nat.strongRecOn with
  | ind n ih =>
    intro c hc
    rcases Nat.lt_or_ge n 16 with small | large
    · rw [Nat.toDigits_of_lt_base small, List.mem_singleton] at hc
      exact hc ▸ mem_digitChar n small
    · rw [toDigits_of_base_le large, List.mem_append, List.mem_singleton] at hc
      rcases hc with hc | rfl
      · exact ih _ (by omega) c hc
      · exact mem_digitChar _ (Nat.mod_lt n (by decide))

/-- Zeros in front do not count. -/
theorem ofHex_zeros (t : Text) : ∀ k, ofHex (List.replicate k '0' ++ t) = ofHex t
  | 0 => rfl
  | k + 1 => ofHex_zeros t k

/-- **A filled up numeral stands for its number.** -/
theorem ofHex_hex (width n : Nat) : ofHex (hex width n) = n :=
  (ofHex_zeros _ _).trans (ofHex_toDigits n)

theorem mem_hex {width : Nat} (hc : c ∈ hex width n) : c ∈ hexDigits := by
  rcases List.mem_append.1 hc with hc | hc
  · rw [List.eq_of_mem_replicate hc]
    decide
  · exact mem_toDigits n c hc

/-- **It has the width that was asked for**, if the number fits. -/
theorem length_hex {width : Nat} (hwidth : 0 < width) (h : n < 16 ^ width) :
    (hex width n).length = width :=
  length_digits hwidth h

/-! ## Escapes -/

/-- **A text is the numeric escape of a character**: behind a backslash, a letter announces two,
four or eight hexadecimal digits, no more than are needed, and these are the code point. -/
def IsEscape (c : Char) (t : Text) : Prop :=
  ∃ letter numeral, t = '\\' :: letter :: numeral ∧ (∀ d ∈ numeral, d ∈ hexDigits) ∧
    ofHex numeral = c.toNat ∧
    (letter = 'x' ∧ numeral.length = 2 ∨
      letter = 'u' ∧ numeral.length = 4 ∧ 0x100 ≤ c.toNat ∨
      letter = 'U' ∧ numeral.length = 8 ∧ 0x10000 ≤ c.toNat)

/-- **The escape of a character is one.** -/
theorem isEscape_escapeCode (c : Char) : IsEscape c (escapeCode c) := by
  have hvalid : c.toNat < 0xD800 ∨ 0xDFFF < c.toNat ∧ c.toNat < 0x110000 := c.valid
  unfold escapeCode
  split
  next small =>
    exact ⟨'x', _, rfl, fun _ => mem_hex, ofHex_hex 2 _,
      Or.inl ⟨rfl, length_hex (by decide) small⟩⟩
  next large =>
    split
    next small =>
      exact ⟨'u', _, rfl, fun _ => mem_hex, ofHex_hex 4 _,
        Or.inr (Or.inl ⟨rfl, length_hex (by decide) small, Nat.le_of_not_lt large⟩)⟩
    next larger =>
      have fits : c.toNat < 16 ^ 8 := by omega
      exact ⟨'U', _, rfl, fun _ => mem_hex, ofHex_hex 8 _,
        Or.inr (Or.inr ⟨rfl, length_hex (by decide) fits, Nat.le_of_not_lt larger⟩)⟩

end ModuleRoster.Text
