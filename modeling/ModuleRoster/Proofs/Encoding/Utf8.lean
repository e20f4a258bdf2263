import ModuleRoster.Encoding.Basic

/-!
# Proofs/Encoding/Utf8 — what is written in UTF-8 is read back

A character takes one to four bytes.  In each of these classes the first byte announces the spans
that the other bytes lie in (`announce_two`, `announce_three`, `announce_four`), so the reader goes
through the bytes of a character and comes out with the character (`decodeFrom_encodeChar`).  For a
whole text this is `decode_encode`.
-/

namespace ModuleRoster.Utf8

variable {n d position : Nat} {rest : Bytes}

theorem toNat_ofNat_byte (h : n < 0x100) : (UInt8.ofNat n).toNat = n :=
  UInt8.toNat_ofNat_of_lt' h

/-- The last code point is `0x10FFFF`. -/
theorem toNat_lt (c : Char) : c.toNat < 0x110000 := by
  have hvalid : c.toNat < 0xD800 ∨ 0xDFFF < c.toNat ∧ c.toNat < 0x110000 := c.valid
  omega

theorem contains_ofNat {s : Span} (h : n < 0x100) (first : s.first ≤ n) (last : n ≤ s.last) :
    s.contains (.ofNat n) = true := by
  simp [Span.contains, toNat_ofNat_byte h, first, last]

/-! ## First bytes -/

theorem announce_one (h : n < 0x80) : announce (.ofNat n) = some (n, []) := by
  unfold announce
  rw [toNat_ofNat_byte (by omega)]
  exact if_pos h

theorem announce_two (h : 0x80 ≤ n) (h' : n < 0x800) :
    announce (.ofNat (0xC0 + n / 0x40)) = some (n / 0x40, [tail]) := by
  unfold announce
  rw [toNat_ofNat_byte (by omega)]
  simp only
  rw [if_neg (by omega), if_neg (by omega), if_pos (by omega), Nat.add_sub_cancel_left]

/-- The second of three bytes is confined where the form would be too long or a surrogate. -/
theorem announce_three (h : 0x800 ≤ n) (h' : n < 0x10000) (scalar : n < 0xD800 ∨ 0xDFFF < n) :
    ∃ s : Span, announce (.ofNat (0xE0 + n / 0x1000)) = some (n / 0x1000, [s, tail]) ∧
      s.first ≤ 0x80 + n / 0x40 % 0x40 ∧ 0x80 + n / 0x40 % 0x40 ≤ s.last := by
  unfold announce
  rw [toNat_ofNat_byte (by omega)]
  simp only
  rw [if_neg (by omega), if_neg (by omega), if_neg (by omega)]
  by_cases low : n / 0x1000 = 0
  · exact ⟨⟨0xA0, 0xBF⟩, by simp [low], by simp only; omega, by simp only; omega⟩
  · by_cases surrogates : n / 0x1000 = 0xD
    · exact ⟨⟨0x80, 0x9F⟩, by simp [surrogates], by simp only; omega, by simp only; omega⟩
    · refine ⟨tail, ?_, by simp only [tail]; omega, by simp only [tail]; omega⟩
      rw [if_neg (by omega), if_neg (by omega), if_pos (by omega), Nat.add_sub_cancel_left]

/-- The second of four bytes is confined where the form would be too long or the number too big. -/
theorem announce_four (h : 0x10000 ≤ n) (h' : n < 0x110000) :
    ∃ s : Span, announce (.ofNat (0xF0 + n / 0x40000)) = some (n / 0x40000, [s, tail, tail]) ∧
      s.first ≤ 0x80 + n / 0x1000 % 0x40 ∧ 0x80 + n / 0x1000 % 0x40 ≤ s.last := by
  unfold announce
  rw [toNat_ofNat_byte (by omega)]
  simp only
  rw [if_neg (by omega), if_neg (by omega), if_neg (by omega), if_neg (by omega),
    if_neg (by omega), if_neg (by omega)]
  by_cases low : n / 0x40000 = 0
  · exact ⟨⟨0x90, 0xBF⟩, by simp [low], by simp only; omega, by simp only; omega⟩
  · by_cases high : n / 0x40000 = 4
    · exact ⟨⟨0x80, 0x8F⟩, by simp [high], by simp only; omega, by simp only; omega⟩
    · refine ⟨tail, ?_, by simp only [tail]; omega, by simp only [tail]; omega⟩
      rw [if_neg (by omega), if_pos (by omega), Nat.add_sub_cancel_left]

/-! ## Later bytes -/

/-- A byte in the span adds six bits, and more are to come. -/
theorem decodeFrom_more {seen : Bytes} {value : Nat} {next s : Span} {later : List Span}
    (hd : d < 0x40) (first : next.first ≤ 0x80 + d) (last : 0x80 + d ≤ next.last) :
    decodeFrom position (some ⟨seen, value, next, s :: later⟩) (.ofNat (0x80 + d) :: rest)
      = decodeFrom position
          (some ⟨seen ++ [.ofNat (0x80 + d)], value * 0x40 + d, s, later⟩) rest := by
  have hmod : (0x80 + d) % 0x40 = d := by omega
  rw [decodeFrom, if_pos (contains_ofNat (by omega) first last)]
  simp only [toNat_ofNat_byte (show 0x80 + d < 0x100 by omega), hmod]

/-- A byte in the span adds six bits and ends the character. -/
theorem decodeFrom_last {seen : Bytes} {value : Nat} {next : Span}
    (hd : d < 0x40) (first : next.first ≤ 0x80 + d) (last : 0x80 + d ≤ next.last) :
    decodeFrom position (some ⟨seen, value, next, []⟩) (.ofNat (0x80 + d) :: rest)
      = (decodeFrom (position + seen.length + 1) none rest).map
          (Char.ofNat (value * 0x40 + d) :: ·) := by
  have hmod : (0x80 + d) % 0x40 = d := by omega
  rw [decodeFrom, if_pos (contains_ofNat (by omega) first last)]
  simp only [toNat_ofNat_byte (show 0x80 + d < 0x100 by omega), hmod]

theorem decodeFrom_announced {value : Nat} {b : UInt8} {s : Span} {later : List Span}
    (h : announce b = some (value, s :: later)) :
    decodeFrom position none (b :: rest)
      = decodeFrom position (some ⟨[b], value, s, later⟩) rest := by
  rw [decodeFrom, h]

/-! ## Characters and texts -/

/-- **The bytes of a character are read as the character.** -/
theorem decodeFrom_encodeChar (c : Char) (position : Nat) (rest : Bytes) :
    decodeFrom position none (encodeChar c ++ rest)
      = (decodeFrom (position + (encodeChar c).length) none rest).map (c :: ·) := by
  have hvalid : c.toNat < 0xD800 ∨ 0xDFFF < c.toNat ∧ c.toNat < 0x110000 := c.valid
  have hchar : Char.ofNat c.toNat = c := Char.ofNat_toNat c
  have tail_first : ∀ m, tail.first ≤ 0x80 + m := fun m => Nat.le_add_right _ m
  have tail_last : ∀ m, 0x80 + m % 0x40 ≤ tail.last := fun m => by simp only [tail]; omega
  have hmod : ∀ m, m % 0x40 < 0x40 := fun m => Nat.mod_lt m (by decide)
  generalize hn : c.toNat = n at *
  unfold encodeChar
  simp only [hn]
  by_cases one : n < 0x80
  · rw [if_pos one, List.singleton_append, decodeFrom, announce_one one]
    simp [hchar]
  rw [if_neg one]
  by_cases two : n < 0x800
  · rw [if_pos two, List.cons_append, List.singleton_append,
      decodeFrom_announced (announce_two (by omega) two),
      decodeFrom_last (hmod _) (tail_first _) (tail_last _)]
    rw [show n / 0x40 * 0x40 + n % 0x40 = n by omega, hchar]
    rfl
  rw [if_neg two]
  by_cases three : n < 0x10000
  · obtain ⟨s, hannounce, first, last⟩ := announce_three (by omega) three (by omega)
    rw [if_pos three, List.cons_append, List.cons_append, List.singleton_append,
      decodeFrom_announced hannounce, decodeFrom_more (hmod _) first last,
      decodeFrom_last (hmod _) (tail_first _) (tail_last _)]
    rw [show (n / 0x1000 * 0x40 + n / 0x40 % 0x40) * 0x40 + n % 0x40 = n by omega, hchar]
    rfl
  · obtain ⟨s, hannounce, first, last⟩ := announce_four (n := n) (by omega) (by omega)
    rw [if_neg three, List.cons_append, List.cons_append, List.cons_append, List.singleton_append,
      decodeFrom_announced hannounce, decodeFrom_more (hmod _) first last,
      decodeFrom_more (hmod _) (tail_first _) (tail_last _),
      decodeFrom_last (hmod _) (tail_first _) (tail_last _)]
    rw [show ((n / 0x40000 * 0x40 + n / 0x1000 % 0x40) * 0x40 + n / 0x40 % 0x40) * 0x40 + n % 0x40
      = n by omega, hchar]
    rfl

theorem decodeFrom_encode : ∀ (t : Text) (position : Nat),
    decodeFrom position none (encode t) = .ok t
  | [], position => by rw [encode, List.flatMap_nil, decodeFrom]
  | c :: t, position => by
      rw [encode, List.flatMap_cons, decodeFrom_encodeChar]
      exact congrArg (Except.map (c :: ·)) (decodeFrom_encode t _)

/-- **Every text is read as it was written.** -/
theorem decode_encode (t : Text) : decode (encode t) = .ok t := decodeFrom_encode t 0

end ModuleRoster.Utf8
