import Mathlib.Data.List.Forall2
import ModuleRoster.Proofs.Encoding.Utf8

/-!
# Proofs/Encoding/Utf8Fault — where reading UTF-8 stops

What `Utf8.announce` says of a first byte is right in both directions: the bytes that fill the
announced spans are those that make a character of it, no more and no fewer (`exists_char_iff`).  So
a character under way can always be finished, and just by the bytes that the reader takes
(`Opened.IsSound`, kept from byte to byte by `Opened.IsSound.more`).

A reader that stops has met the first fault of the bytes, in terms of what characters are encoded
as (`IsFirstFault`): it stands behind the longest part that encodes a text, and it has taken in the
longest beginning of a character from there (`exists_fault`).
-/

namespace ModuleRoster.Utf8

variable {b : UInt8} {bytes rest : Bytes} {n : Nat} {c d : Char}

/-! ## The forms of a character -/

/-- The bytes lie in the spans, one in each. -/
def Fill (spans : List Span) (bytes : Bytes) : Prop :=
  List.Forall₂ (fun s b => s.contains b = true) spans bytes

theorem contains_iff {s : Span} : s.contains b = true ↔ s.first ≤ b.toNat ∧ b.toNat ≤ s.last := by
  simp [Span.contains]

theorem ofNat_eq_of_toNat (h : n = b.toNat) : UInt8.ofNat n = b := by
  rw [h, UInt8.ofNat_toNat]

/-- A number that is no surrogate and not too big is the code point of a character. -/
theorem exists_char (h : n < 0xD800 ∨ 0xDFFF < n ∧ n < 0x110000) : ∃ c : Char, c.toNat = n :=
  ⟨Char.ofNatAux n h, rfl⟩

theorem exists_one (h : b.toNat < 0x80) : ∃ c, encodeChar c = [b] := by
  obtain ⟨c, hc⟩ := exists_char (n := b.toNat) (by omega)
  refine ⟨c, ?_⟩
  unfold encodeChar
  simp only [hc]
  rw [if_pos h, ofNat_eq_of_toNat rfl]

theorem exists_two {x : UInt8} (hb : 0xC2 ≤ b.toNat ∧ b.toNat < 0xE0)
    (hx : 0x80 ≤ x.toNat ∧ x.toNat ≤ 0xBF) : ∃ c, encodeChar c = [b, x] := by
  obtain ⟨c, hc⟩ := exists_char (n := (b.toNat - 0xC0) * 0x40 + (x.toNat - 0x80)) (by omega)
  refine ⟨c, ?_⟩
  unfold encodeChar
  simp only [hc]
  rw [if_neg (by omega), if_pos (by omega), ofNat_eq_of_toNat (b := b) (by omega),
    ofNat_eq_of_toNat (b := x) (by omega)]

/-- Three bytes, with the second one such that no shorter form will do and that the number is no
surrogate. -/
theorem exists_three {x y : UInt8} (hb : 0xE0 ≤ b.toNat ∧ b.toNat < 0xF0)
    (hx : 0x80 ≤ x.toNat ∧ x.toNat ≤ 0xBF) (hy : 0x80 ≤ y.toNat ∧ y.toNat ≤ 0xBF)
    (long : b.toNat = 0xE0 → 0xA0 ≤ x.toNat) (scalar : b.toNat = 0xED → x.toNat ≤ 0x9F) :
    ∃ c, encodeChar c = [b, x, y] := by
  obtain ⟨c, hc⟩ := exists_char
    (n := (b.toNat - 0xE0) * 0x1000 + (x.toNat - 0x80) * 0x40 + (y.toNat - 0x80)) (by omega)
  refine ⟨c, ?_⟩
  unfold encodeChar
  simp only [hc]
  rw [if_neg (by omega), if_neg (by omega), if_pos (by omega),
    ofNat_eq_of_toNat (b := b) (by omega), ofNat_eq_of_toNat (b := x) (by omega),
    ofNat_eq_of_toNat (b := y) (by omega)]

/-- Four bytes, with the second one such that no shorter form will do and that the number is not too
big. -/
theorem exists_four {x y z : UInt8} (hb : 0xF0 ≤ b.toNat ∧ b.toNat ≤ 0xF4)
    (hx : 0x80 ≤ x.toNat ∧ x.toNat ≤ 0xBF) (hy : 0x80 ≤ y.toNat ∧ y.toNat ≤ 0xBF)
    (hz : 0x80 ≤ z.toNat ∧ z.toNat ≤ 0xBF) (long : b.toNat = 0xF0 → 0x90 ≤ x.toNat)
    (scalar : b.toNat = 0xF4 → x.toNat ≤ 0x8F) : ∃ c, encodeChar c = [b, x, y, z] := by
  obtain ⟨c, hc⟩ := exists_char (n := (b.toNat - 0xF0) * 0x40000 + (x.toNat - 0x80) * 0x1000 +
    (y.toNat - 0x80) * 0x40 + (z.toNat - 0x80)) (by omega)
  refine ⟨c, ?_⟩
  unfold encodeChar
  simp only [hc]
  rw [if_neg (by omega), if_neg (by omega), if_neg (by omega),
    ofNat_eq_of_toNat (b := b) (by omega), ofNat_eq_of_toNat (b := x) (by omega),
    ofNat_eq_of_toNat (b := y) (by omega), ofNat_eq_of_toNat (b := z) (by omega)]

/-! ## What a first byte announces -/

theorem fill_tail (m : Nat) : tail.contains (.ofNat (0x80 + m % 0x40)) = true :=
  contains_ofNat (by omega) (by simp only [tail]; omega) (by simp only [tail]; omega)

/-- **The first byte of a character announces the others.** -/
theorem announce_of_encodeChar (c : Char) : ∃ b later n spans,
    encodeChar c = b :: later ∧ announce b = some (n, spans) ∧ Fill spans later := by
  have hvalid : c.toNat < 0xD800 ∨ 0xDFFF < c.toNat ∧ c.toNat < 0x110000 := c.valid
  unfold encodeChar
  generalize c.toNat = n at *
  simp only
  by_cases one : n < 0x80
  · rw [if_pos one]
    exact ⟨_, _, _, _, rfl, announce_one one, .nil⟩
  rw [if_neg one]
  by_cases two : n < 0x800
  · rw [if_pos two]
    exact ⟨_, _, _, _, rfl, announce_two (by omega) two, .cons (fill_tail n) .nil⟩
  rw [if_neg two]
  by_cases three : n < 0x10000
  · obtain ⟨s, hannounce, first, last⟩ := announce_three (by omega) three (by omega)
    rw [if_pos three]
    exact ⟨_, _, _, _, rfl, hannounce, .cons (contains_ofNat (by omega) first last)
      (.cons (fill_tail n) .nil)⟩
  · obtain ⟨s, hannounce, first, last⟩ := announce_four (n := n) (by omega) (by omega)
    rw [if_neg three]
    exact ⟨_, _, _, _, rfl, hannounce, .cons (contains_ofNat (by omega) first last)
      (.cons (fill_tail (n / 0x40)) (.cons (fill_tail n) .nil))⟩

/-- The span is a part of `tail`, and not an empty one. -/
structure Span.IsNarrow (s : Span) : Prop where
  first_ge : 0x80 ≤ s.first
  nonempty : s.first ≤ s.last
  last_le : s.last ≤ 0xBF

theorem isNarrow_tail : tail.IsNarrow := ⟨by decide, by decide, by decide⟩

/-- **What can be announced**, by the number of bytes to come. -/
theorem announce_eq_some {spans : List Span} (h : announce b = some (n, spans)) :
    (spans = [] ∧ b.toNat < 0x80) ∨
    (spans = [tail] ∧ 0xC2 ≤ b.toNat ∧ b.toNat < 0xE0) ∨
    (∃ s : Span, spans = [s, tail] ∧ s.IsNarrow ∧ (0xE0 ≤ b.toNat ∧ b.toNat < 0xF0) ∧
      (b.toNat = 0xE0 → 0xA0 ≤ s.first) ∧ (b.toNat = 0xED → s.last ≤ 0x9F)) ∨
    ∃ s : Span, spans = [s, tail, tail] ∧ s.IsNarrow ∧ (0xF0 ≤ b.toNat ∧ b.toNat ≤ 0xF4) ∧
      (b.toNat = 0xF0 → 0x90 ≤ s.first) ∧ (b.toNat = 0xF4 → s.last ≤ 0x8F) := by
  unfold announce at h
  simp only at h
  by_cases one : b.toNat < 0x80
  · rw [if_pos one] at h
    obtain ⟨-, rfl⟩ := Prod.mk.inj (Option.some.inj h)
    exact Or.inl ⟨rfl, one⟩
  rw [if_neg one] at h
  by_cases continues : b.toNat < 0xC2
  · rw [if_pos continues] at h
    cases h
  rw [if_neg continues] at h
  by_cases two : b.toNat < 0xE0
  · rw [if_pos two] at h
    obtain ⟨-, rfl⟩ := Prod.mk.inj (Option.some.inj h)
    exact Or.inr (Or.inl ⟨rfl, by omega, two⟩)
  rw [if_neg two] at h
  by_cases short : b.toNat = 0xE0
  · rw [if_pos short] at h
    obtain ⟨-, rfl⟩ := Prod.mk.inj (Option.some.inj h)
    exact Or.inr (Or.inr (Or.inl ⟨_, rfl, ⟨by decide, by decide, by decide⟩, by omega,
      fun _ => Nat.le_refl _, by omega⟩))
  rw [if_neg short] at h
  by_cases surrogate : b.toNat = 0xED
  · rw [if_pos surrogate] at h
    obtain ⟨-, rfl⟩ := Prod.mk.inj (Option.some.inj h)
    exact Or.inr (Or.inr (Or.inl ⟨_, rfl, ⟨by decide, by decide, by decide⟩, by omega, by omega,
      fun _ => Nat.le_refl _⟩))
  rw [if_neg surrogate] at h
  by_cases three : b.toNat < 0xF0
  · rw [if_pos three] at h
    obtain ⟨-, rfl⟩ := Prod.mk.inj (Option.some.inj h)
    exact Or.inr (Or.inr (Or.inl ⟨_, rfl, isNarrow_tail, by omega, by omega, by omega⟩))
  rw [if_neg three] at h
  by_cases short' : b.toNat = 0xF0
  · rw [if_pos short'] at h
    obtain ⟨-, rfl⟩ := Prod.mk.inj (Option.some.inj h)
    exact Or.inr (Or.inr (Or.inr ⟨_, rfl, ⟨by decide, by decide, by decide⟩, by omega,
      fun _ => Nat.le_refl _, by omega⟩))
  rw [if_neg short'] at h
  by_cases four : b.toNat < 0xF4
  · rw [if_pos four] at h
    obtain ⟨-, rfl⟩ := Prod.mk.inj (Option.some.inj h)
    exact Or.inr (Or.inr (Or.inr ⟨_, rfl, isNarrow_tail, by omega, by omega, by omega⟩))
  rw [if_neg four] at h
  by_cases last : b.toNat = 0xF4
  · rw [if_pos last] at h
    obtain ⟨-, rfl⟩ := Prod.mk.inj (Option.some.inj h)
    exact Or.inr (Or.inr (Or.inr ⟨_, rfl, ⟨by decide, by decide, by decide⟩, by omega, by omega,
      fun _ => Nat.le_refl _⟩))
  · rw [if_neg last] at h
    cases h

/-- **What fills the announced spans makes a character.** -/
theorem exists_char_of_fill {spans : List Span} {later : Bytes}
    (h : announce b = some (n, spans)) (fill : Fill spans later) :
    ∃ c, encodeChar c = b :: later := by
  have hnarrow : ∀ {s : Span} {x : UInt8}, s.IsNarrow → s.contains x = true →
      0x80 ≤ x.toNat ∧ x.toNat ≤ 0xBF := fun narrow hx =>
    ⟨Nat.le_trans narrow.first_ge (contains_iff.1 hx).1,
      Nat.le_trans (contains_iff.1 hx).2 narrow.last_le⟩
  have htail : ∀ {x : UInt8}, tail.contains x = true → 0x80 ≤ x.toNat ∧ x.toNat ≤ 0xBF :=
    hnarrow isNarrow_tail
  rcases announce_eq_some h with ⟨rfl, one⟩ | ⟨rfl, two⟩ | ⟨s, rfl, narrow, three, long, scalar⟩ |
    ⟨s, rfl, narrow, four, long, scalar⟩
  · cases fill
    exact exists_one one
  · obtain _ | ⟨hx, ⟨⟩⟩ := fill
    exact exists_two two (htail hx)
  · obtain _ | ⟨hx, _ | ⟨hy, ⟨⟩⟩⟩ := fill
    obtain ⟨first, last⟩ := contains_iff.1 hx
    exact exists_three three (hnarrow narrow hx) (htail hy) (fun h => Nat.le_trans (long h) first)
      fun h => Nat.le_trans last (scalar h)
  · obtain _ | ⟨hx, _ | ⟨hy, _ | ⟨hz, ⟨⟩⟩⟩⟩ := fill
    obtain ⟨first, last⟩ := contains_iff.1 hx
    exact exists_four four (hnarrow narrow hx) (htail hy) (htail hz)
      (fun h => Nat.le_trans (long h) first) fun h => Nat.le_trans last (scalar h)

/-- **The bytes of a character with a given first byte** are those that fill what it announces. -/
theorem exists_char_iff {later : Bytes} : (∃ c, encodeChar c = b :: later) ↔
    ∃ n spans, announce b = some (n, spans) ∧ Fill spans later := by
  constructor
  · rintro ⟨c, hc⟩
    obtain ⟨_, _, n, spans, hforms, hannounce, fill⟩ := announce_of_encodeChar c
    cases hforms.symm.trans hc
    exact ⟨n, spans, hannounce, fill⟩
  · rintro ⟨n, spans, hannounce, fill⟩
    exact exists_char_of_fill hannounce fill

/-- What is announced can be filled. -/
theorem exists_fill {spans : List Span} (h : announce b = some (n, spans)) :
    ∃ later, Fill spans later := by
  have narrow : ∀ {s : Span}, s.IsNarrow → s.contains (.ofNat s.first) = true := fun hs =>
    contains_ofNat (by have := hs.nonempty; have := hs.last_le; omega) (Nat.le_refl _) hs.nonempty
  have htail := narrow isNarrow_tail
  rcases announce_eq_some h with ⟨rfl, -⟩ | ⟨rfl, -⟩ | ⟨s, rfl, hs, -⟩ | ⟨s, rfl, hs, -⟩
  · exact ⟨[], .nil⟩
  · exact ⟨_, .cons htail .nil⟩
  · exact ⟨_, .cons (narrow hs) (.cons htail .nil)⟩
  · exact ⟨_, .cons (narrow hs) (.cons htail (.cons htail .nil))⟩

/-! ## Characters side by side -/

theorem encodeChar_ne_nil (c : Char) : encodeChar c ≠ [] := by
  obtain ⟨b, later, _, _, hforms, -⟩ := announce_of_encodeChar c
  simp [hforms]

theorem encodeChar_injective (h : encodeChar c = encodeChar d) : c = d := by
  have hc := decode_encode [c]
  have hd := decode_encode [d]
  simp only [encode, List.flatMap_singleton] at hc hd
  rw [h, hd] at hc
  simpa using hc.symm

/-- **No character goes on from the bytes of another one**: the first byte tells how many there
are. -/
theorem encodeChar_unique {x y : Bytes} (h : encodeChar c ++ x = encodeChar d ++ y) :
    c = d ∧ x = y := by
  obtain ⟨b, later, n, spans, hc, hannounce, fill⟩ := announce_of_encodeChar c
  obtain ⟨b', later', n', spans', hd, hannounce', fill'⟩ := announce_of_encodeChar d
  rw [hc, hd, List.cons_append, List.cons_append, List.cons.injEq] at h
  obtain ⟨rfl, h⟩ := h
  cases hannounce.symm.trans hannounce'
  obtain ⟨rfl, rfl⟩ := List.append_inj h (fill.length_eq.symm.trans fill'.length_eq)
  exact ⟨encodeChar_injective (hc.trans hd.symm), rfl⟩

theorem encode_cons (c : Char) (t : Text) : encode (c :: t) = encodeChar c ++ encode t := by
  rw [encode, List.flatMap_cons, encode]

/-- No character's bytes stand at the beginning. -/
def NoChar (bytes : Bytes) : Prop := ∀ c, ¬ encodeChar c <+: bytes

/-- **A text is the longest one** if no character follows. -/
theorem length_encode_le (h : NoChar rest) : ∀ (s t : Text), encode s <+: encode t ++ rest →
    (encode s).length ≤ (encode t).length
  | [], _, _ => Nat.zero_le _
  | c :: s, [], hs => by
      refine absurd (List.IsPrefix.trans ?_ hs) (h c)
      rw [encode_cons]
      exact List.prefix_append _ _
  | c :: s, d :: t, ⟨after, hs⟩ => by
      rw [encode_cons, encode_cons, List.append_assoc, List.append_assoc] at hs
      obtain ⟨rfl, htail⟩ := encodeChar_unique hs
      rw [encode_cons, encode_cons, List.length_append, List.length_append]
      exact Nat.add_le_add_left (length_encode_le h s t ⟨after, htail⟩) _

/-! ## A character under way -/

/-- **The beginning of a character**: some of its bytes, but not all. -/
def IsBeginning (bytes : Bytes) : Prop :=
  bytes ≠ [] ∧ ∃ c, bytes <+: encodeChar c ∧ bytes ≠ encodeChar c

/-- **What a character under way promises**: it can be finished, and just by the bytes that fill the
spans to come. -/
structure Opened.IsSound (o : Opened) : Prop where
  begun : o.seen ≠ []
  exists_fill : ∃ later, Fill (o.next :: o.later) later
  exists_char_iff : ∀ later, (∃ c, encodeChar c = o.seen ++ later) ↔ Fill (o.next :: o.later) later

namespace Opened.IsSound

variable {o : Opened}

/-- A first byte that announces others opens a character. -/
theorem opened {s : Span} {spans : List Span} (h : announce b = some (n, s :: spans)) :
    IsSound ⟨[b], n, s, spans⟩ where
  begun := nofun
  exists_fill := Utf8.exists_fill h
  exists_char_iff later := by
    rw [List.singleton_append, Utf8.exists_char_iff]
    constructor
    · rintro ⟨_, _, hannounce, fill⟩
      cases hannounce.symm.trans h
      exact fill
    · exact fun fill => ⟨_, _, h, fill⟩

/-- **The promise is kept by a byte in the next span.** -/
theorem more {s : Span} {spans : List Span} {value m : Nat} {next : Span} {seen : Bytes}
    (sound : IsSound ⟨seen, value, next, s :: spans⟩) (hb : next.contains b = true) :
    IsSound ⟨seen ++ [b], m, s, spans⟩ where
  begun := by simp
  exists_fill := by
    obtain ⟨_, fill⟩ := sound.exists_fill
    obtain _ | ⟨_, fill⟩ := fill
    exact ⟨_, fill⟩
  exists_char_iff later := by
    rw [List.append_assoc, List.singleton_append, sound.exists_char_iff]
    exact ⟨fun | .cons _ fill => fill, .cons hb⟩

/-- What was seen is the beginning of a character. -/
theorem isBeginning (sound : o.IsSound) : IsBeginning o.seen := by
  obtain ⟨later, fill⟩ := sound.exists_fill
  obtain ⟨c, hc⟩ := (sound.exists_char_iff later).2 fill
  refine ⟨sound.begun, c, hc ▸ List.prefix_append _ _, fun hseen => ?_⟩
  have hlater : later = [] := by simpa [← hseen] using hc
  rw [hlater] at fill
  cases fill

/-- No character goes on with a byte outside the next span. -/
theorem not_begins (sound : o.IsSound) (hb : ¬ o.next.contains b = true) :
    ¬ o.seen ++ [b] <+: encodeChar c := by
  rintro ⟨later, hc⟩
  have hbytes : encodeChar c = o.seen ++ b :: later := by simpa using hc.symm
  obtain _ | ⟨hcontains, _⟩ := (sound.exists_char_iff _).1 ⟨c, hbytes⟩
  exact hb hcontains

end Opened.IsSound

/-! ## Reading to the end or to a fault -/

/-- **How reading stops** before bytes that no character stands at the beginning of: with the bytes
that it has taken in from there, and a flaw. -/
inductive Stops (bytes : Bytes) : Bytes → Flaw → Prop
  | badStart {b : UInt8} {rest : Bytes} (split : bytes = b :: rest)
      (strange : ∀ c, ¬ [b] <+: encodeChar c) : Stops bytes [b] .badStart
  | truncated (beginning : IsBeginning bytes) : Stops bytes bytes .truncated
  | badContinuation {seen : Bytes} {b : UInt8} {rest : Bytes} (split : bytes = seen ++ b :: rest)
      (beginning : IsBeginning seen) (strange : ∀ c, ¬ seen ++ [b] <+: encodeChar c) :
      Stops bytes seen .badContinuation

/-- **A character under way that is not finished is a fault.**  The induction is on the bytes to
come; each of them in the next span keeps the promise of the character. -/
theorem decodeFrom_opened {position : Nat} : ∀ (rest : Bytes) {o : Opened}, o.IsSound →
    NoChar (o.seen ++ rest) → ∃ seen flaw,
      decodeFrom position (some o) rest = .error ⟨position, seen, flaw⟩ ∧
        Stops (o.seen ++ rest) seen flaw
  | [], o, sound, _ => by
      refine ⟨o.seen, .truncated, by rw [decodeFrom], ?_⟩
      rw [List.append_nil]
      exact .truncated sound.isBeginning
  | b :: rest, ⟨seen, value, next, later⟩, sound, noChar => by
      by_cases hb : next.contains b = true
      · cases later with
        | nil =>
            obtain ⟨c, hc⟩ := (sound.exists_char_iff [b]).2 (.cons hb .nil)
            refine absurd ⟨rest, ?_⟩ (noChar c)
            rw [hc]
            exact (List.append_cons seen b rest).symm
        | cons s spans =>
            have hsplit : seen ++ b :: rest = seen ++ [b] ++ rest := List.append_cons seen b rest
            rw [hsplit] at noChar
            rw [decodeFrom, if_pos hb, hsplit]
            exact decodeFrom_opened rest (sound.more hb) noChar
      · refine ⟨seen, .badContinuation, by rw [decodeFrom, if_neg hb], ?_⟩
        exact .badContinuation rfl sound.isBeginning fun c => sound.not_begins hb

/-- **Where no character stands, reading stops.** -/
theorem decodeFrom_noChar (position : Nat) (noChar : NoChar bytes) (hbytes : bytes ≠ []) :
    ∃ seen flaw, decodeFrom position none bytes = .error ⟨position, seen, flaw⟩ ∧
      Stops bytes seen flaw := by
  cases bytes with
  | nil => exact absurd rfl hbytes
  | cons b rest =>
    rcases hannounce : announce b with _ | ⟨n, _ | ⟨s, spans⟩⟩
    · refine ⟨[b], .badStart, by rw [decodeFrom, hannounce], .badStart rfl ?_⟩
      rintro c ⟨later, hc⟩
      obtain ⟨_, _, hsome, _⟩ := exists_char_iff.1 ⟨c, hc.symm⟩
      cases hannounce.symm.trans hsome
    · obtain ⟨c, hc⟩ := exists_char_of_fill hannounce .nil
      exact absurd (hc ▸ ⟨rest, rfl⟩) (noChar c)
    · rw [decodeFrom_announced hannounce]
      exact decodeFrom_opened rest (.opened hannounce) noChar

/-- **Reading goes through the characters one by one** up to where none stands. -/
theorem exists_decodeFrom (bytes : Bytes) (position : Nat) : ∃ t rest,
    bytes = encode t ++ rest ∧ NoChar rest ∧
      decodeFrom position none bytes
        = (decodeFrom (position + (encode t).length) none rest).map (t ++ ·) := by
  by_cases h : NoChar bytes
  · refine ⟨[], bytes, rfl, h, ?_⟩
    exact (congrFun Except.map_id _).symm
  · obtain ⟨c, after, hbytes⟩ : ∃ c, encodeChar c <+: bytes := by simpa [NoChar] using h
    have shorter : after.length < bytes.length := by
      rw [← hbytes, List.length_append]
      exact Nat.lt_add_of_pos_left (List.length_pos_iff.2 (encodeChar_ne_nil c))
    obtain ⟨t, rest, hafter, noChar, hread⟩ :=
      exists_decodeFrom after (position + (encodeChar c).length)
    refine ⟨c :: t, rest, by rw [← hbytes, hafter, encode_cons, List.append_assoc], noChar, ?_⟩
    rw [← hbytes, decodeFrom_encodeChar, hread, encode_cons, List.length_append, Nat.add_assoc]
    cases decodeFrom (position + ((encodeChar c).length + (encode t).length)) none rest <;> rfl
termination_by bytes.length

/-! ## The first fault -/

/-- **The longest beginning of a sequence of bytes** that has a property. -/
structure IsLongest (P : Bytes → Prop) (bytes part : Bytes) : Prop where
  begins : part <+: bytes
  holds : P part
  longest : ∀ other, other <+: bytes → P other → other.length ≤ part.length

/-- **The first fault of bytes that encode no text.**  It stands behind the longest beginning that
encodes one; it covers the longest beginning of a character there, or the one next byte if there is
no such beginning; and its flaw tells whether no character begins with that byte, or else whether
the bytes come to an end. -/
structure IsFirstFault (bytes : Bytes) (f : Fault) : Prop where
  start : IsLongest (fun part => ∃ t, part = encode t) bytes (bytes.take f.start) ∧
    f.start < bytes.length
  range : IsLongest IsBeginning (bytes.drop f.start) f.bytes ∨
    (∀ other, other <+: bytes.drop f.start → ¬ IsBeginning other) ∧
      f.bytes = (bytes.drop f.start).take 1
  badStart : f.flaw.message = "invalid start byte".toList ↔
    ∀ c, ¬ (bytes.drop f.start).take 1 <+: encodeChar c
  truncated : f.flaw.message = "unexpected end of data".toList ↔
    (∃ c, (bytes.drop f.start).take 1 <+: encodeChar c) ∧
      f.start + f.bytes.length = bytes.length
  badContinuation : f.flaw.message = "invalid continuation byte".toList ↔
    (∃ c, (bytes.drop f.start).take 1 <+: encodeChar c) ∧
      f.start + f.bytes.length ≠ bytes.length

/-- Each flaw has words of its own. -/
theorem Flaw.message_eq_iff {flaw flaw' : Flaw} : flaw.message = flaw'.message ↔ flaw = flaw' := by
  cases flaw <;> cases flaw' <;> decide

namespace Stops

variable {seen : Bytes} {flaw : Flaw}

/-- A character begins with the first byte, unless that is the flaw. -/
theorem exists_char_iff (stops : Stops bytes seen flaw) :
    (∃ c, bytes.take 1 <+: encodeChar c) ↔ flaw ≠ .badStart := by
  have take_of_beginning : ∀ {seen after : Bytes}, IsBeginning seen →
      ∃ c, (seen ++ after).take 1 <+: encodeChar c := by
    rintro (_ | ⟨b, seen⟩) after ⟨hne, c, hc, -⟩
    · exact absurd rfl hne
    · exact ⟨c, List.IsPrefix.trans ⟨seen, rfl⟩ hc⟩
  cases stops with
  | badStart split strange =>
      rw [split]
      exact iff_of_false (fun ⟨c, hc⟩ => strange c hc) (fun h => h rfl)
  | truncated beginning =>
      have hbegins : ∃ c, (bytes ++ []).take 1 <+: encodeChar c := take_of_beginning beginning
      rw [List.append_nil] at hbegins
      exact iff_of_true hbegins nofun
  | badContinuation split beginning _ =>
      rw [split]
      exact iff_of_true (take_of_beginning beginning) nofun

/-- What was taken in is the longest beginning of a character, or one byte if there is none. -/
theorem isLongest (stops : Stops bytes seen flaw) : IsLongest IsBeginning bytes seen ∨
    (∀ other, other <+: bytes → ¬ IsBeginning other) ∧ seen = bytes.take 1 := by
  cases stops with
  | @badStart b _ split strange =>
      subst split
      refine Or.inr ⟨fun other hother ⟨hne, c, hc, _⟩ => strange c ?_, rfl⟩
      obtain ⟨first, others, rfl⟩ := List.exists_cons_of_ne_nil hne
      obtain ⟨rfl, -⟩ := List.cons_prefix_cons.1 hother
      exact List.IsPrefix.trans ⟨others, rfl⟩ hc
  | truncated beginning =>
      exact Or.inl ⟨List.prefix_refl _, beginning, fun other hother _ => hother.length_le⟩
  | @badContinuation _ b after split beginning strange =>
      refine Or.inl ⟨split ▸ List.prefix_append _ _, beginning, fun other hother ⟨_, c, hc, _⟩ => ?_⟩
      -- a longer one would have the byte that no character goes on with
      refine Nat.le_of_not_lt fun longer => strange c (List.IsPrefix.trans ?_ hc)
      have hmore : seen ++ [b] <+: bytes := ⟨after, by simp [split]⟩
      exact List.prefix_of_prefix_length_le hmore hother (by simpa using Nat.succ_le_of_lt longer)

/-- Reading comes to the end of the bytes exactly if that is the flaw. -/
theorem length_eq_iff (stops : Stops bytes seen flaw) (hflaw : flaw ≠ .badStart) :
    seen.length = bytes.length ↔ flaw = .truncated := by
  cases stops with
  | badStart => exact absurd rfl hflaw
  | truncated => exact iff_of_true rfl rfl
  | badContinuation split =>
      refine iff_of_false (fun h => ?_) nofun
      rw [split, List.length_append, List.length_cons] at h
      omega

/-- **Where reading stops is the first fault.** -/
theorem isFirstFault {t : Text} (noChar : NoChar rest) (hrest : rest ≠ [])
    (stops : Stops rest seen flaw) :
    IsFirstFault (encode t ++ rest) ⟨(encode t).length, seen, flaw⟩ where
  start := by
    simp only [List.take_left]
    refine ⟨⟨List.prefix_append _ _, ⟨t, rfl⟩, ?_⟩, ?_⟩
    · rintro _ hother ⟨s, rfl⟩
      exact length_encode_le noChar s t hother
    · simpa using List.length_pos_iff.2 hrest
  range := by
    simp only [List.drop_left]
    exact stops.isLongest
  badStart := by
    simp only [List.drop_left]
    rw [← not_exists, stops.exists_char_iff, Decidable.not_not]
    change flaw.message = Flaw.badStart.message ↔ _
    exact Flaw.message_eq_iff
  truncated := by
    simp only [List.drop_left, List.length_append, Nat.add_left_cancel_iff]
    rw [stops.exists_char_iff]
    change flaw.message = Flaw.truncated.message ↔ _
    rw [Flaw.message_eq_iff]
    constructor
    · rintro rfl
      exact ⟨nofun, (stops.length_eq_iff nofun).2 rfl⟩
    · exact fun ⟨hflaw, hlength⟩ => (stops.length_eq_iff hflaw).1 hlength
  badContinuation := by
    simp only [List.drop_left, List.length_append, ne_eq, Nat.add_left_cancel_iff]
    rw [stops.exists_char_iff]
    change flaw.message = Flaw.badContinuation.message ↔ _
    rw [Flaw.message_eq_iff]
    constructor
    · rintro rfl
      exact ⟨nofun, fun hlength => absurd ((stops.length_eq_iff nofun).1 hlength) nofun⟩
    · rintro ⟨hflaw, hlength⟩
      rw [stops.length_eq_iff hflaw] at hlength
      cases flaw with
      | badStart => exact absurd rfl hflaw
      | badContinuation => rfl
      | truncated => exact absurd rfl hlength

end Stops

/-- **Bytes that encode no text have a first fault**, and reading them stops there. -/
theorem exists_fault (h : ∀ t, bytes ≠ encode t) :
    ∃ f, decode bytes = .error f ∧ IsFirstFault bytes f := by
  obtain ⟨t, rest, rfl, noChar, hread⟩ := exists_decodeFrom bytes 0
  have hrest : rest ≠ [] := fun hnil => h t (by rw [hnil, List.append_nil])
  obtain ⟨seen, flaw, hstop, stops⟩ :=
    decodeFrom_noChar (0 + (encode t).length) noChar hrest
  refine ⟨⟨(encode t).length, seen, flaw⟩, ?_, stops.isFirstFault noChar hrest⟩
  rw [decode, hread, hstop, Nat.zero_add]
  rfl

end ModuleRoster.Utf8
