import ModuleRoster.Proofs.Text.Blank
import ModuleRoster.Proofs.Text.Lines

/-!
# Proofs/Text/WholeLine — lines are what stands between two breaks

A text that ends where a line ends has its lines apart from those of what comes behind it
(`lines_append_of_endsLine`), if no carriage return meets a line feed there.  So a text that is not
empty is a line of another just if it has no break, and stands between the beginning or a break and
a break or the end (`mem_lines_iff`).
-/

namespace ModuleRoster.Text

variable {a b l t : Text} {c : Char}

/-! ## Breaks -/

/-- The code points of the breaks. -/
def breakCodes : List Nat := [0x0A, 0x0B, 0x0C, 0x0D, 0x1C, 0x1D, 0x1E, 0x85, 0x2028, 0x2029]

/-- **Ten characters end a line.** -/
theorem isLineBreak_iff : isLineBreak c = true ↔ c.toNat ∈ breakCodes := by
  have hcodes : breakCodes = lineBreaks.map Char.toNat := by decide
  rw [hcodes, isLineBreak, List.contains_iff_mem, List.mem_map]
  exact ⟨fun h => ⟨c, h, rfl⟩, fun ⟨_, hd, hdc⟩ => Char.toNat_inj.1 hdc ▸ hd⟩

/-! ## Ends of lines -/

/-- **A line ends where the text ends**: the text is empty or has a break at its end. -/
def EndsLine (a : Text) : Prop := ∀ c, a.getLast? = some c → isLineBreak c = true

/-- **A line ends where the text begins**: the text is empty or has a break at its beginning. -/
def StartsBreak (b : Text) : Prop := ∀ c, b.head? = some c → isLineBreak c = true

theorem EndsLine.cons (h : EndsLine a) (alone : a = [] → isLineBreak c = true) :
    EndsLine (c :: a) := by
  cases a with
  | nil =>
      rintro d ⟨⟩
      exact alone rfl
  | cons d a => simpa [EndsLine] using h

theorem EndsLine.of_cons (h : EndsLine (c :: a)) : EndsLine a := by
  cases a with
  | nil => nofun
  | cons d a => simpa [EndsLine] using h

/-- **The lines on both sides of the end of a line** do not meet, unless a break is cut there. -/
theorem lines_append_of_endsLine (ends : EndsLine a)
    (whole : a.getLast? = some '\r' → b.head? ≠ some '\n') :
    lines (a ++ b) = lines a ++ lines b := by
  -- both conditions are about the last character of `a`, which stays the last one along `lines`
  fun_induction lines a with
  | case1 => rfl
  | case2 rest ih =>
      have ih := ih ends.of_cons.of_cons fun h => whole (by simp [List.getLast?_cons, h])
      rw [List.cons_append, List.cons_append, lines_crlf, ih, List.cons_append]
  | case3 c rest noFeed hc ih =>
      have ih := ih ends.of_cons fun h => whole (by simp [List.getLast?_cons, h])
      have alone : c = '\r' → (rest ++ b).head? ≠ some '\n' := by
        rintro rfl
        cases rest with
        | nil => exact whole rfl
        | cons d rest => simpa using fun h => noFeed rest rfl (by rw [h])
      rw [List.cons_append, lines_cons_break hc alone, ih, List.cons_append]
  | case4 c rest _ hc ih =>
      have hc : isLineBreak c = false := by simpa using hc
      have hrest : rest ≠ [] := by
        rintro rfl
        simp [ends c rfl] at hc
      have ih := ih ends.of_cons fun h => whole (by simp [List.getLast?_cons, h])
      rw [List.cons_append, lines_cons_char hc, ih, growFirst_append c (lines_ne_nil hrest)]

/-! ## The first line -/

theorem exists_lines_of_startsBreak (h : StartsBreak b) (hb : b ≠ []) :
    ∃ ls, lines b = [] :: ls := by
  obtain ⟨c, rest, rfl⟩ := List.exists_cons_of_ne_nil hb
  have hc : isLineBreak c = true := h c rfl
  by_cases alone : c = '\r' → rest.head? ≠ some '\n'
  · exact ⟨_, lines_cons_break hc alone⟩
  · obtain ⟨rfl, hrest⟩ := Classical.not_imp.1 alone
    obtain ⟨rest', rfl⟩ := List.head?_eq_some_iff.1 (Classical.not_not.1 hrest)
    exact ⟨_, lines_crlf⟩

/-- **What stands before the first break is the first line.** -/
theorem exists_lines_append (hb : StartsBreak b) : ∀ {l : Text}, l ≠ [] →
    (∀ c ∈ l, isLineBreak c = false) → ∃ ls, lines (l ++ b) = l :: ls
  | [], hl, _ => absurd rfl hl
  | [c], _, noBreak => by
      rw [List.singleton_append, lines_cons_char (noBreak c List.mem_cons_self)]
      rcases b with _ | ⟨d, b⟩
      · exact ⟨[], rfl⟩
      · obtain ⟨ls, hls⟩ := exists_lines_of_startsBreak hb (List.cons_ne_nil d b)
        exact ⟨ls, by rw [hls, growFirst]⟩
  | c :: d :: l, _, noBreak => by
      obtain ⟨ls, hls⟩ := exists_lines_append hb (List.cons_ne_nil d l)
        fun e he => noBreak e (List.mem_cons_of_mem c he)
      exact ⟨ls, by rw [List.cons_append, lines_cons_char (noBreak c List.mem_cons_self), hls,
        growFirst]⟩

/-! ## Where lines stand -/

/-- **Each line stands in the text**, behind the end of a line and in front of one, and only the
first line has nothing before it. -/
def Stand (ls : List Text) (t : Text) : Prop :=
  ∀ before l after, ls = before ++ l :: after →
    ∃ a b, t = a ++ l ++ b ∧ EndsLine a ∧ StartsBreak b ∧ (a = [] ↔ before = [])

/-- A break in front of the text is an empty line in front of the lines. -/
theorem Stand.behind {ls : List Text} {rest : Text} (h : Stand ls rest) (mark : Text)
    (hne : mark ≠ []) (ends : ∀ {a}, EndsLine a → EndsLine (mark ++ a))
    (starts : StartsBreak (mark ++ rest)) : Stand ([] :: ls) (mark ++ rest) := by
  intro before l after hls
  rcases before with _ | ⟨_, before⟩
  · obtain ⟨rfl, -⟩ := List.cons.inj hls
    exact ⟨[], mark ++ rest, rfl, nofun, starts, by simp⟩
  · obtain ⟨a, b, rfl, ha, hb, -⟩ := h before l after (List.cons.inj hls).2
    exact ⟨mark ++ a, b, by simp, ends ha, hb, by simp [hne]⟩

/-- Any other character belongs to the first line. -/
theorem Stand.grow {ls : List Text} {rest : Text} (h : Stand ls rest)
    (hnil : ls = [] → rest = []) (c : Char) : Stand (growFirst c ls) (c :: rest) := by
  intro before l after hls
  rcases ls with _ | ⟨first, ls⟩ <;> rcases before with _ | ⟨_, before⟩
  · obtain rfl := hnil rfl
    obtain ⟨rfl, -⟩ := List.cons.inj hls
    exact ⟨[], [], rfl, nofun, nofun, by simp⟩
  · simp [growFirst] at hls
  · -- the line that grows is the first one, and so nothing comes between it and the character
    obtain ⟨rfl, -⟩ := List.cons.inj hls
    obtain ⟨a, b, rfl, -, hb, ha⟩ := h [] first ls rfl
    obtain rfl := ha.2 rfl
    exact ⟨[], b, rfl, nofun, hb, by simp⟩
  · obtain ⟨rfl, rfl⟩ := List.cons.inj hls
    obtain ⟨a, b, rfl, ha, hb, hfirst⟩ := h (first :: before) l after rfl
    exact ⟨c :: a, b, rfl, ha.cons fun h => absurd (hfirst.1 h) (by simp), hb, by simp⟩

theorem stand_lines (t : Text) : Stand (lines t) t := by
  fun_induction lines t with
  | case1 => simp [Stand]
  | case2 rest ih =>
      exact ih.behind ['\r', '\n'] (by simp)
        (fun ha => (ha.cons fun _ => by decide).cons (by simp)) (by rintro _ ⟨⟩; decide)
  | case3 c rest _ hc ih =>
      exact ih.behind [c] (by simp) (fun ha => ha.cons fun _ => hc)
        (by rintro _ ⟨⟩; exact hc)
  | case4 c rest _ _ ih =>
      exact ih.grow (fun h => Classical.not_not.1 fun hrest => lines_ne_nil hrest h) c

/-- **A text that is not empty is a line of another** just if it has no break, begins where a line
ends, and ends where one does. -/
theorem mem_lines_iff (hl : l ≠ []) : l ∈ lines t ↔ (∀ c ∈ l, isLineBreak c = false) ∧
    ∃ a b, t = a ++ l ++ b ∧ EndsLine a ∧ StartsBreak b := by
  constructor
  · intro h
    obtain ⟨before, after, hlines⟩ := List.append_of_mem h
    obtain ⟨a, b, ht, ha, hb, -⟩ := stand_lines t before l after hlines
    exact ⟨noBreak_of_mem_lines t l h, a, b, ht, ha, hb⟩
  · rintro ⟨noBreak, a, b, rfl, ha, hb⟩
    obtain ⟨c, l, rfl⟩ := List.exists_cons_of_ne_nil hl
    obtain ⟨ls, hls⟩ := exists_lines_append hb hl noBreak
    have hc : isLineBreak c = false := noBreak c List.mem_cons_self
    rw [List.append_assoc, lines_append_of_endsLine ha fun _ h => ?_, hls]
    · simp
    · -- no break is cut in two, as a line feed would have to be the first character of the line
      obtain rfl : c = '\n' := by simpa using h
      exact absurd hc (by decide)

end ModuleRoster.Text
