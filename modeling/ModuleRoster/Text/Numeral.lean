import ModuleRoster.Text.Order

/-!
# Text/Numeral — numbers written in digits
-/

namespace ModuleRoster.Text

/-- A number in base `base`, filled up with zeros in front to at least `width` digits. -/
def digits (base width n : Nat) : Text :=
  let ds := Nat.toDigits base n
  List.replicate (width - ds.length) '0' ++ ds

/-- A number in hexadecimal with at least `width` digits; the letters are small. -/
def hex (width n : Nat) : Text := digits 16 width n

/-- **The decimal numeral of an integer**: a minus sign if it is negative, no leading zero. -/
def ofInt : Int → Text
  | .ofNat n => Nat.toDigits 10 n
  | .negSucc n => '-' :: Nat.toDigits 10 (n + 1)

end ModuleRoster.Text
