import ModuleRoster.Number.PowerOfTwo
import ModuleRoster.Number.Rounding
import ModuleRoster.Text.Numeral

/-!
# Number/Binary64 — double-precision numbers, exactly

A finite number is a sign and a magnitude, and a magnitude is a whole number of units of
`2 ^ -1074`, the least positive double.  Sums and products with whole numbers are then exact in
`Nat`, and `Magnitude.round?` takes the result back to the nearest double.
-/

namespace ModuleRoster

/-! ## Magnitudes -/

/-- The least positive double is `2 ^ -unitExponent`. -/
def unitExponent : Nat := 1074

/-- The doubles end below `2 ^ limitExponent` units. -/
def limitExponent : Nat := 2098

/-- How many units make one. -/
def unitsInOne : Nat := twoPow unitExponent

/-- Every magnitude is below this many units. -/
def unitLimit : Nat := twoPow limitExponent

theorem twoPow_le_unitLimit {k : Nat} (h : k ≤ limitExponent) : twoPow k ≤ unitLimit :=
  twoPow_le_twoPow h

/-- **The magnitude of a finite double**, in units of `2 ^ -1074`: at most 53 significant bits, and
below the limit. -/
structure Magnitude where
  units : Nat
  isShort : ∃ m e : Nat, m < twoPow 53 ∧ units = m * twoPow e
  units_lt : units < unitLimit
  deriving DecidableEq

namespace Magnitude

/-- How many bits a number of units has beyond the 53 that a magnitude may have. -/
def excess (n : Nat) : Nat := n.log2 - 52

/-- The nearest number of units with at most 53 significant bits, a tie going to the even one. -/
def roundUnits (n : Nat) : Nat := roundDiv n (twoPow (excess n)) * twoPow (excess n)

theorem div_twoPow_excess_lt (n : Nat) : n / twoPow (excess n) < twoPow 53 := by
  rw [Nat.div_lt_iff_lt_mul (twoPow_pos _), ← twoPow_add]
  exact Nat.lt_of_lt_of_le (lt_twoPow_log2 n) (twoPow_le_twoPow (by unfold excess; omega))

/-- Rounding leaves at most 53 significant bits. -/
theorem isShort_roundUnits (n : Nat) :
    ∃ m e : Nat, m < twoPow 53 ∧ roundUnits n = m * twoPow e := by
  have hq : roundDiv n (twoPow (excess n)) ≤ twoPow 53 :=
    Nat.le_trans (roundDiv_le _ _) (div_twoPow_excess_lt n)
  rcases Nat.lt_or_eq_of_le hq with h | h
  · exact ⟨_, _, h, rfl⟩
  · refine ⟨1, 53 + excess n, by decide, ?_⟩
    rw [roundUnits, h, twoPow_add, Nat.one_mul]

/-- **The double nearest to a number of units**, if it is not beyond the last one. -/
def round? (n : Nat) : Option Magnitude :=
  if h : roundUnits n < unitLimit then some ⟨roundUnits n, isShort_roundUnits n, h⟩ else none

/-- A magnitude with the exponent field 0: the fraction counts units. -/
def subnormal (fraction : Nat) (h : fraction < twoPow 52) : Magnitude where
  units := fraction
  isShort := ⟨fraction, 0, Nat.lt_of_lt_of_le h (twoPow_le_twoPow (by decide)), by simp⟩
  units_lt := Nat.lt_of_lt_of_le h (twoPow_le_unitLimit (by decide))

theorem twoPow_52_add_lt {fraction : Nat} (h : fraction < twoPow 52) :
    twoPow 52 + fraction < twoPow 53 := by
  change twoPow 52 + fraction < twoPow 52 * 2
  omega

/-- A magnitude with another exponent field: 53 bits, shifted by one less than the exponent. -/
def normal (exponent fraction : Nat) (hf : fraction < twoPow 52) (he : exponent ≤ 2046) :
    Magnitude where
  units := (twoPow 52 + fraction) * twoPow (exponent - 1)
  isShort := ⟨twoPow 52 + fraction, exponent - 1, twoPow_52_add_lt hf, rfl⟩
  units_lt := by
    refine Nat.lt_of_lt_of_le
      (Nat.mul_lt_mul_of_pos_right (twoPow_52_add_lt hf) (twoPow_pos _)) ?_
    rw [← twoPow_add]
    exact twoPow_le_unitLimit (by unfold limitExponent; omega)

/-- The whole part of a magnitude. -/
def floor (m : Magnitude) : Nat := m.units / unitsInOne

/-- A magnitude in thousandths, a tie going to the even number of them. -/
def thousandths (m : Magnitude) : Nat := roundDiv (m.units * 1000) unitsInOne

end Magnitude

/-! ## Doubles -/

/-- **A double-precision number.**  Zero has two signs; all that is not a number is one value. -/
inductive Binary64
  | nan
  | infinite (negative : Bool)
  | finite (negative : Bool) (magnitude : Magnitude)
  deriving DecidableEq

namespace Binary64

/-- Read the 64 bits of the interchange format: sign, eleven bits of exponent, 52 of fraction. -/
def ofBits (bits : UInt64) : Binary64 :=
  let negative := decide (twoPow 63 ≤ bits.toNat)
  let exponent := bits.toNat / twoPow 52 % twoPow 11
  let fraction := bits.toNat % twoPow 52
  have hf : fraction < twoPow 52 := Nat.mod_lt _ (twoPow_pos 52)
  if h : exponent ≤ 2046 then
    .finite negative
      (if exponent = 0 then .subnormal fraction hf else .normal exponent fraction hf h)
  else if fraction = 0 then .infinite negative
  else .nan

/-- The double nearest to so many units with a sign: infinite beyond the last one. -/
def ofUnits (negative : Bool) (n : Nat) : Binary64 :=
  match Magnitude.round? n with
  | some m => .finite negative m
  | none => .infinite negative

/-- The positive zero. -/
def zero : Binary64 := ofUnits false 0

/-- The product with a whole number, which is not zero. -/
def scale (k : Nat) : Binary64 → Binary64
  | .nan => .nan
  | .infinite s => .infinite s
  | .finite s m => ofUnits s (m.units * k)

/-- **The difference, rounded once.**  A difference of equal numbers is the positive zero. -/
def sub : Binary64 → Binary64 → Binary64
  | .nan, _ => .nan
  | _, .nan => .nan
  | .infinite s, .infinite t => if s = t then .nan else .infinite s
  | .infinite s, .finite _ _ => .infinite s
  | .finite _ _, .infinite t => .infinite !t
  | .finite s m, .finite t n =>
      if s != t then ofUnits s (m.units + n.units)
      else if m.units = n.units then zero
      else if n.units < m.units then ofUnits s (m.units - n.units)
      else ofUnits (!s) (n.units - m.units)

/-! ## Out of the format -/

/-- Why a double has no integer part. -/
inductive NoInteger
  | nan
  | infinite
  deriving DecidableEq, Repr

/-- The integer part, toward zero. -/
def truncate : Binary64 → Except NoInteger Int
  | .nan => .error .nan
  | .infinite _ => .error .infinite
  | .finite s m => .ok (if s then -(m.floor : Int) else m.floor)

/-- **The decimal numeral with three places**; the sign is written also before a zero. -/
def toThousandths : Binary64 → Text
  | .nan => "nan".toList
  | .infinite s => (if s then ['-'] else []) ++ "inf".toList
  | .finite s m =>
      (if s then ['-'] else []) ++ Text.digits 10 1 (m.thousandths / 1000) ++ ['.'] ++
        Text.digits 10 3 (m.thousandths % 1000)

end Binary64

end ModuleRoster
