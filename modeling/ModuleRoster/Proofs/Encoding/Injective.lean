import ModuleRoster.Proofs.Encoding.OneByte
import ModuleRoster.Proofs.Encoding.Utf8Fault
import ModuleRoster.Number.PowerOfTwo

/-!
# Proofs/Encoding/Injective — the bytes tell the text

Each Unicode form writes a text character by character, in a code that shows where a character ends
(`IsUnambiguous`); such a code can be taken apart again, so the bytes tell the text
(`IsUnambiguous.flatMap_injective`).  The forms differ in how they show it: UTF-8 by the first byte,
UTF-32 by the width, UTF-16 by the surrogates, which no character has as its only unit
(`isUnambiguous_utf16`).  `Encoding.encode_injective` is the statement for all encodings, and
`Encoding.Lacks` says which texts an encoding does not write (`exists_encode_eq_error_iff`).
-/

namespace ModuleRoster

variable {s t : Text} {bytes x y : Bytes} {n m : Nat} {order : ByteOrder}

/-! ## Codes that can be taken apart -/

/-- **A code that shows where it ends**: what begins with the code of a character begins with no
other one. -/
structure IsUnambiguous (code : Char → Bytes) : Prop where
  ne_nil : ∀ c, code c ≠ []
  eq_of_append : ∀ {c d x y}, code c ++ x = code d ++ y → c = d

/-- **Such a code can be taken apart**, character by character. -/
theorem IsUnambiguous.flatMap_injective {code : Char → Bytes} (h : IsUnambiguous code) :
    ∀ {s t : Text}, s.flatMap code = t.flatMap code → s = t
  | [], [], _ => rfl
  | [], d :: t, hst => by
      rw [List.flatMap_nil, List.flatMap_cons] at hst
      exact absurd (List.append_eq_nil_iff.1 hst.symm).1 (h.ne_nil d)
  | c :: s, [], hst => by
      rw [List.flatMap_nil, List.flatMap_cons] at hst
      exact absurd (List.append_eq_nil_iff.1 hst).1 (h.ne_nil c)
  | c :: s, d :: t, hst => by
      rw [List.flatMap_cons, List.flatMap_cons] at hst
      obtain rfl := h.eq_of_append hst
      rw [h.flatMap_injective (List.append_cancel_left hst)]

/-! ## Numbers of a fixed width -/

theorem length_littleEndian : ∀ width n : Nat, (littleEndian width n).length = width
  | 0, _ => rfl
  | width + 1, n => congrArg Nat.succ (length_littleEndian width (n / 0x100))

theorem littleEndian_injective : ∀ {width n m : Nat}, n < twoPow (8 * width) →
    m < twoPow (8 * width) → littleEndian width n = littleEndian width m → n = m
  | 0, n, m, hn, hm, _ => by
      have hone : twoPow (8 * 0) = 1 := rfl
      omega
  | width + 1, n, m, hn, hm, h => by
      have hpow : twoPow (8 * (width + 1)) = twoPow (8 * width) * 0x100 := by
        rw [Nat.mul_succ, twoPow_add]
        rfl
      rw [hpow] at hn hm
      simp only [littleEndian, List.cons.injEq] at h
      obtain ⟨hlow, hhigh⟩ := h
      have hmod := congrArg UInt8.toNat hlow
      rw [Utf8.toNat_ofNat_byte (Nat.mod_lt _ (by decide)),
        Utf8.toNat_ofNat_byte (Nat.mod_lt _ (by decide))] at hmod
      have hdiv := littleEndian_injective (Nat.div_lt_of_lt_mul (by omega))
        (Nat.div_lt_of_lt_mul (by omega)) hhigh
      omega

namespace ByteOrder

theorem length_bytes (order : ByteOrder) (width n : Nat) : (order.bytes width n).length = width := by
  cases order with
  | little => exact length_littleEndian width n
  | big => rw [bytes, List.length_reverse, length_littleEndian]

/-- **A number of a fixed width is told by its bytes**, and so is what stands behind them. -/
theorem eq_of_bytes_append {width : Nat} (hn : n < twoPow (8 * width)) (hm : m < twoPow (8 * width))
    (h : order.bytes width n ++ x = order.bytes width m ++ y) : n = m ∧ x = y := by
  obtain ⟨hbytes, hrest⟩ :=
    List.append_inj h ((length_bytes order width n).trans (length_bytes order width m).symm)
  refine ⟨littleEndian_injective hn hm ?_, hrest⟩
  cases order with
  | little => exact hbytes
  | big => exact List.reverse_injective hbytes

end ByteOrder

/-! ## The codes of the Unicode forms -/

theorem isUnambiguous_utf8 : IsUnambiguous Utf8.encodeChar where
  ne_nil := Utf8.encodeChar_ne_nil
  eq_of_append h := (Utf8.encodeChar_unique h).1

theorem isUnambiguous_utf32 (order : ByteOrder) :
    IsUnambiguous fun c => order.bytes 4 c.toNat where
  ne_nil c h := by
    have hlength := order.length_bytes 4 c.toNat
    rw [h] at hlength
    cases hlength
  eq_of_append {c d _ _} h := by
    have small : ∀ c : Char, c.toNat < twoPow (8 * 4) := fun c => by
      have hlt := Utf8.toNat_lt c
      have hpow : twoPow (8 * 4) = 0x100000000 := rfl
      omega
    exact Char.toNat_inj.1 (ByteOrder.eq_of_bytes_append (small c) (small d) h).1

/-- **The units of a character**: one that is no surrogate, or a high and a low surrogate. -/
theorem units16_cases (c : Char) :
    (∃ n, Encoding.units16 c = [n] ∧ (n < 0xD800 ∨ 0xDFFF < n ∧ n < 0x10000) ∧ n = c.toNat) ∨
      ∃ high low, Encoding.units16 c = [0xD800 + high, 0xDC00 + low] ∧ high < 0x400 ∧ low < 0x400 ∧
        c.toNat = 0x10000 + high * 0x400 + low := by
  have hvalid : c.toNat < 0xD800 ∨ 0xDFFF < c.toNat ∧ c.toNat < 0x110000 := c.valid
  unfold Encoding.units16
  simp only
  by_cases single : c.toNat < 0x10000
  · rw [if_pos single]
    exact Or.inl ⟨c.toNat, rfl, by omega, rfl⟩
  · rw [if_neg single]
    exact Or.inr ⟨_, _, rfl, by omega, by omega, by omega⟩

/-- **UTF-16 shows where a character ends**: a first unit is a high surrogate exactly if a second
one follows. -/
theorem isUnambiguous_utf16 (order : ByteOrder) :
    IsUnambiguous fun c => (Encoding.units16 c).flatMap (order.bytes 2) where
  ne_nil c h := by
    have hunits : Encoding.units16 c ≠ [] := by
      rcases units16_cases c with ⟨_, hc, -⟩ | ⟨_, _, hc, -⟩ <;> simp [hc]
    obtain ⟨n, units, hc⟩ := List.exists_cons_of_ne_nil hunits
    rw [hc, List.flatMap_cons] at h
    have hlength := order.length_bytes 2 n
    rw [(List.append_eq_nil_iff.1 h).1] at hlength
    cases hlength
  eq_of_append {c d _ _} h := by
    have hpow : twoPow (8 * 2) = 0x10000 := rfl
    have first : ∀ {n m : Nat} {x y : Bytes}, n < 0x10000 → m < 0x10000 →
        order.bytes 2 n ++ x = order.bytes 2 m ++ y → n = m ∧ x = y := fun hn hm =>
      ByteOrder.eq_of_bytes_append (hpow ▸ hn) (hpow ▸ hm)
    refine Char.toNat_inj.1 ?_
    rcases units16_cases c with ⟨n, hc, hn, hcn⟩ | ⟨high, low, hc, hhigh, hlow, hcn⟩ <;>
      rcases units16_cases d with ⟨m, hd, hm, hdm⟩ | ⟨high', low', hd, hhigh', hlow', hdm⟩ <;>
        simp only [hc, hd, List.flatMap_cons, List.flatMap_nil, List.append_assoc] at h
    · have := (first (by omega) (by omega) h).1
      omega
    · have := (first (by omega) (by omega) h).1
      omega
    · have := (first (by omega) (by omega) h).1
      omega
    · obtain ⟨hfirst, hrest⟩ := first (by omega) (by omega) h
      have := (first (by omega) (by omega) hrest).1
      omega

/-! ## All encodings -/

namespace OneByte

variable {charset : OneByte}

/-- A character of the set is told by its byte. -/
theorem toNat_eq_of_byte {c d : Char} (hc : charset.holds c = true) (hd : charset.holds d = true)
    (h : UInt8.ofNat c.toNat = .ofNat d.toNat) : c = d := by
  have hlimit : charset.limit ≤ 0x100 := by cases charset <;> decide
  have byte : ∀ {c : Char}, charset.holds c = true → (UInt8.ofNat c.toNat).toNat = c.toNat :=
    fun hc => Utf8.toNat_ofNat_byte (Nat.lt_of_lt_of_le (of_decide_eq_true hc) hlimit)
  exact Char.toNat_inj.1 ((byte hc).symm.trans ((congrArg UInt8.toNat h).trans (byte hd)))

/-- **A one-byte set tells the text**: it gives each of its characters a byte of its own. -/
theorem encode_injective (hs : charset.encode s = .ok bytes) (ht : charset.encode t = .ok bytes) :
    s = t := by
  obtain ⟨held, rfl⟩ := encode_eq_ok_iff.1 hs
  obtain ⟨held', hmap⟩ := encode_eq_ok_iff.1 ht
  clear hs ht
  induction s generalizing t with
  | nil => exact (List.map_eq_nil_iff.1 hmap.symm).symm
  | cons c s ih =>
    obtain ⟨d, t, rfl, hbyte, hrest⟩ := List.map_eq_cons_iff.1 hmap.symm
    obtain ⟨hc, hs⟩ := List.forall_mem_cons.1 held
    obtain ⟨hd, ht⟩ := List.forall_mem_cons.1 held'
    rw [toNat_eq_of_byte hd hc hbyte, ih hs ht hrest.symm]

/-- **A set refuses a text exactly if it does not hold one of its characters.** -/
theorem exists_encode_eq_error_iff :
    (∃ fault, charset.encode t = .error fault) ↔ ∃ c ∈ t, charset.limit ≤ c.toNat := by
  have hholds : ∀ c : Char, charset.holds c = true ↔ ¬ charset.limit ≤ c.toNat := fun c => by
    simp [holds]
  constructor
  · rintro ⟨fault, hfault⟩
    refine Classical.byContradiction fun hnone => ?_
    have held : ∀ c ∈ t, charset.holds c = true := fun c hc =>
      (hholds c).2 fun hlimit => hnone ⟨c, hc, hlimit⟩
    exact nomatch hfault.symm.trans (encode_eq_ok_iff.2 ⟨held, rfl⟩)
  · rintro ⟨c, hc, hlimit⟩
    rcases hencode : charset.encode t with fault | bytes
    · exact ⟨fault, rfl⟩
    · exact absurd hlimit ((hholds c).1 ((encode_eq_ok_iff.1 hencode).1 c hc))

end OneByte

namespace Encoding

theorem withMark_injective {marked : Bool} (h : withMark marked s = withMark marked t) : s = t := by
  cases marked with
  | false => exact h
  | true => exact (List.cons.inj h).2

/-- **The bytes tell the text**, in every encoding. -/
theorem encode_injective {e : Encoding} (hs : e.encode s = .ok bytes)
    (ht : e.encode t = .ok bytes) : s = t := by
  have h := hs.trans ht.symm
  cases e with
  | oneByte charset => exact OneByte.encode_injective hs ht
  | utf8 marked =>
      exact withMark_injective (isUnambiguous_utf8.flatMap_injective (Except.ok.inj h))
  | utf16 order marked =>
      exact withMark_injective ((isUnambiguous_utf16 order).flatMap_injective (Except.ok.inj h))
  | utf32 order marked =>
      exact withMark_injective ((isUnambiguous_utf32 order).flatMap_injective (Except.ok.inj h))

/-- **The encoding does not hold the text**: only the one-byte sets lack characters, ASCII those from
128 on and Latin-1 those from 256 on. -/
def Lacks : Encoding → Text → Prop
  | .oneByte .ascii, t => ∃ c ∈ t, 128 ≤ c.toNat
  | .oneByte .latin1, t => ∃ c ∈ t, 256 ≤ c.toNat
  | _, _ => False

/-- **A text is refused exactly if the encoding lacks one of its characters.** -/
theorem exists_encode_eq_error_iff {e : Encoding} :
    (∃ fault, e.encode t = .error fault) ↔ e.Lacks t := by
  cases e with
  | oneByte charset =>
      refine OneByte.exists_encode_eq_error_iff.trans ?_
      cases charset <;> exact Iff.rfl
  | utf8 => exact iff_of_false nofun id
  | utf16 => exact iff_of_false nofun id
  | utf32 => exact iff_of_false nofun id

end Encoding

end ModuleRoster
