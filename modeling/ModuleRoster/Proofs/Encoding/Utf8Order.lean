import Mathlib.Data.List.Lex
import Mathlib.Tactic.SplitIfs
import ModuleRoster.Proofs.Encoding.Utf8Fault
import ModuleRoster.Proofs.Text.Sorted
import ModuleRoster.Text.Lines

/-!
# Proofs/Encoding/Utf8Order — UTF-8 keeps the order of texts and the places of ASCII characters

A character is an opening byte and a trail of six bits in each byte.  The opening bytes ascend with
the code points, and where two of them agree the trails are of one length and decide
(`opening_ascends`, `trail_precedes`).  So the first difference between two texts is the first
difference between their bytes, with the same outcome (`precedes_encode_iff`).

The bytes of a trail are no ASCII bytes, so each ASCII byte is a character of its own
(`byte_mem_encode_iff`), and the line feeds between texts are where their bytes can be parted
(`splitOn_encode_unlines`).
-/

namespace ModuleRoster

/-- **A sequence of bytes comes before another**, in dictionary order. -/
def Bytes.Precedes (x y : Bytes) : Prop := List.Lex (· < ·) x y

theorem Bytes.Precedes.asymm {x y : Bytes} (h : Precedes x y) : ¬Precedes y x :=
  Std.Asymm.asymm (r := List.Lex (· < ·)) x y h

namespace Utf8

variable {n m a : Nat} {c d : Char} {s t : Text} {x y : Bytes}

/-! ## The bytes of a number -/

/-- The last `k` bytes of a number: six bits in each. -/
def trail : Nat → Nat → Bytes
  | 0, _ => []
  | k + 1, n => trail k (n / 0x40) ++ [.ofNat (0x80 + n % 0x40)]

/-- What is left of a number without its trail. -/
def lead : Nat → Nat → Nat
  | 0, n => n
  | k + 1, n => lead k (n / 0x40)

/-- The first byte of a number, and how many bytes trail behind it. -/
def opening (n : Nat) : Nat × Nat :=
  if n < 0x80 then (n, 0)
  else if n < 0x800 then (0xC0 + lead 1 n, 1)
  else if n < 0x10000 then (0xE0 + lead 2 n, 2)
  else (0xF0 + lead 3 n, 3)

theorem encodeChar_eq (c : Char) : encodeChar c
    = .ofNat (opening c.toNat).1 :: trail (opening c.toNat).2 c.toNat := by
  unfold encodeChar opening
  simp only
  split_ifs <;> simp only [trail, lead, Nat.div_div_eq_div_mul] <;> rfl

theorem opening_lt (h : n < 0x110000) : (opening n).1 < 0x100 := by
  unfold opening
  split_ifs <;> simp only [lead] <;> omega

/-! ## Order -/

theorem precedes_of_lt (h : a < n) (hn : n < 0x100) :
    Bytes.Precedes (.ofNat a :: x) (.ofNat n :: y) := by
  refine List.Lex.rel (UInt8.lt_iff_toNat_lt.2 ?_)
  rwa [toNat_ofNat_byte (Nat.lt_trans h hn), toNat_ofNat_byte hn]

/-- **Opening bytes ascend**, and if they agree the numbers differ in their trails alone. -/
theorem opening_ascends (h : n < m) : (opening n).1 < (opening m).1 ∨
    opening n = opening m ∧ lead (opening n).2 n = lead (opening m).2 m := by
  -- one case for each pair of lengths
  unfold opening
  split_ifs <;> simp only [lead, Prod.mk.injEq, and_true] <;> omega

/-- **Trails ascend**, as far as the numbers differ in them alone. -/
theorem trail_precedes : ∀ {k n m : Nat}, n < m → lead k n = lead k m →
    ∀ x y, Bytes.Precedes (trail k n ++ x) (trail k m ++ y)
  | 0, n, m, h, hlead, _, _ => absurd hlead (Nat.ne_of_lt h)
  | k + 1, n, m, h, hlead, x, y => by
      rw [trail, trail, List.append_assoc, List.append_assoc]
      rcases Nat.lt_or_eq_of_le (Nat.div_le_div_right (c := 0x40) (Nat.le_of_lt h)) with hlt | heq
      · exact trail_precedes hlt hlead _ _
      · rw [heq]
        exact List.Lex.append_left _ (precedes_of_lt (by omega) (by omega)) _

/-- **A character's bytes come before those of a later one**, whatever stands behind them. -/
theorem encodeChar_precedes (h : c.toNat < d.toNat) (x y : Bytes) :
    Bytes.Precedes (encodeChar c ++ x) (encodeChar d ++ y) := by
  rw [encodeChar_eq, encodeChar_eq, List.cons_append, List.cons_append]
  rcases opening_ascends h with hlt | ⟨hopening, hlead⟩
  · exact precedes_of_lt hlt (opening_lt (toNat_lt d))
  · rw [hopening] at hlead ⊢
    exact List.Lex.cons (trail_precedes h hlead _ _)

theorem precedes_encode_of_precedes : ∀ {s t : Text}, Text.Precedes s t →
    Bytes.Precedes (encode s) (encode t)
  | [], [], h => nomatch h
  | [], d :: t, _ => by
      rw [encode_cons, encodeChar_eq]
      exact List.Lex.nil
  | c :: s, [], h => nomatch h
  | c :: s, d :: t, h => by
      rw [encode_cons, encode_cons]
      rcases List.cons_lex_cons_iff.1 h with hlt | ⟨heq, hlex⟩
      · exact encodeChar_precedes hlt _ _
      · obtain rfl := Char.toNat_inj.1 heq
        exact List.Lex.append_left _ (precedes_encode_of_precedes hlex) _

/-- **UTF-8 keeps the order of texts.** -/
theorem precedes_encode_iff : Bytes.Precedes (encode s) (encode t) ↔ Text.Precedes s t := by
  refine ⟨fun h => Classical.byContradiction fun hst => ?_, precedes_encode_of_precedes⟩
  by_cases hts : Text.Precedes t s
  · exact h.asymm (precedes_encode_of_precedes hts)
  · obtain rfl := Text.le_antisymm (Text.le_iff.2 hst) (Text.le_iff.2 hts)
    exact h.asymm h

/-! ## ASCII bytes -/

theorem le_of_mem_trail {b : UInt8} : ∀ {k n : Nat}, b ∈ trail k n → 0x80 ≤ b.toNat
  | 0, _, h => nomatch h
  | k + 1, n, h => by
      rw [trail, List.mem_append, List.mem_singleton] at h
      rcases h with h | rfl
      · exact le_of_mem_trail h
      · rw [toNat_ofNat_byte (by omega)]
        exact Nat.le_add_right _ _

theorem byte_mem_encodeChar_iff (ha : a < 0x80) :
    .ofNat a ∈ encodeChar c ↔ c.toNat = a := by
  have hbyte : (UInt8.ofNat a).toNat = a := toNat_ofNat_byte (by omega)
  rw [encodeChar_eq, List.mem_cons]
  constructor
  · rintro (h | h)
    · have hopening := congrArg UInt8.toNat h
      rw [hbyte, toNat_ofNat_byte (opening_lt (toNat_lt c))] at hopening
      unfold opening at hopening
      split_ifs at hopening <;> simp only at hopening <;> omega
    · have := le_of_mem_trail h
      omega
  · rintro rfl
    exact Or.inl (by rw [opening, if_pos ha])

/-- **An ASCII byte is a character of its own**, and no part of another. -/
theorem byte_mem_encode_iff (ha : a < 0x80) : .ofNat a ∈ encode t ↔ ∃ c ∈ t, c.toNat = a := by
  rw [encode, List.mem_flatMap]
  exact exists_congr fun c => and_congr_right fun _ => byte_mem_encodeChar_iff ha

theorem feed_mem_encode_iff : 0x0A ∈ encode t ↔ '\n' ∈ t := by
  refine (byte_mem_encode_iff (a := 0x0A) (by decide)).trans ⟨?_, fun h => ⟨_, h, rfl⟩⟩
  rintro ⟨c, hc, hcode⟩
  obtain rfl : c = '\n' := Char.toNat_inj.1 hcode
  exact hc

/-! ## Lines -/

theorem encode_append (s t : Text) : encode (s ++ t) = encode s ++ encode t := List.flatMap_append

theorem encode_unlines : ∀ ts : List Text,
    encode (Text.unlines ts) = List.intercalate [0x0A] (ts.map encode)
  | [] => rfl
  | [t] => by simp [Text.unlines, Text.join]
  | t :: u :: rest => by
      have ih := encode_unlines (u :: rest)
      have hfeed : encode ['\n'] = [0x0A] := rfl
      rw [Text.unlines] at ih ⊢
      rw [Text.join, encode_append, encode_append, ih, hfeed, List.map_cons, List.map_cons,
        List.map_cons, List.intercalate_cons_cons]

/-- **The bytes of texts in lines are parted at the line feeds.** -/
theorem splitOn_encode_unlines {ts : List Text} (hne : ts ≠ []) (whole : ∀ t ∈ ts, '\n' ∉ t) :
    (encode (Text.unlines ts)).splitOn 0x0A = ts.map encode := by
  rw [encode_unlines]
  refine List.splitOn_intercalate 0x0A (fun line hline hfeed => ?_) (by simpa using hne)
  obtain ⟨t, ht, rfl⟩ := List.mem_map.1 hline
  exact whole t ht (feed_mem_encode_iff.1 hfeed)

end Utf8

end ModuleRoster
