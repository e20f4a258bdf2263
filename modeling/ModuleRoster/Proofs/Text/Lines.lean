import ModuleRoster.Text.Lines

/-!
# Proofs/Text/Lines — lines across a seam, and with other breaks

A line feed between two texts separates their lines, but the list of lines is not just the two lists
one after the other: a first text that is empty or ends with a break leaves an empty line at the
seam, unless it ends with a carriage return, which takes the line feed in (`lines_append`).  Other
spellings of the common breaks change nothing (`lines_unifyBreaks`).
-/

namespace ModuleRoster.Text

variable {c : Char} {t rest : Text}

/-! ## One character at a time -/

/-- A break ends a line, if it is no carriage return with a line feed behind it. -/
theorem lines_cons_break (h : isLineBreak c = true) (alone : c = '\r' → rest.head? ≠ some '\n') :
    lines (c :: rest) = [] :: lines rest := by
  rw [lines]
  · rw [if_pos h]
  · rintro rest' rfl rfl
    exact alone rfl rfl

theorem lines_cons_char (h : isLineBreak c = false) :
    lines (c :: rest) = growFirst c (lines rest) := by
  rw [lines]
  · rw [if_neg (by simp [h])]
  · rintro rest' rfl
    exact absurd h (by decide)

theorem lines_crlf : lines ('\r' :: '\n' :: rest) = [] :: lines rest := by
  rw [lines]

theorem lines_lf : lines ('\n' :: rest) = [] :: lines rest :=
  lines_cons_break (by decide) nofun

theorem lines_ne_nil : ∀ {t : Text}, t ≠ [] → lines t ≠ []
  | [], h => absurd rfl h
  | c :: rest, _ => by
      cases hc : isLineBreak c with
      | false =>
          rw [lines_cons_char hc]
          cases lines rest <;> simp [growFirst]
      | true =>
          by_cases alone : c = '\r' → rest.head? ≠ some '\n'
          · rw [lines_cons_break hc alone]
            nofun
          · obtain ⟨rfl, hrest⟩ := Classical.not_imp.1 alone
            obtain ⟨rest', rfl⟩ := List.head?_eq_some_iff.1 (Classical.not_not.1 hrest)
            rw [lines_crlf]
            nofun

/-! ## Across a seam -/

theorem growFirst_append (c : Char) {ls : List Text} (h : ls ≠ []) (ls' : List Text) :
    growFirst c (ls ++ ls') = growFirst c ls ++ ls' := by
  cases ls with
  | nil => exact absurd rfl h
  | cons l ls => rfl

/-- **Two texts with a line feed between them have the lines of both**, and perhaps an empty line at
the seam. -/
theorem lines_append (a b : Text) : ∃ seam : List Text, (∀ l ∈ seam, l = []) ∧
    lines (a ++ '\n' :: b) = lines a ++ seam ++ lines b := by
  induction a using lines.induct with
  | case1 => exact ⟨[[]], by simp, lines_lf⟩
  | case2 rest ih =>
      obtain ⟨seam, hseam, h⟩ := ih
      refine ⟨seam, hseam, ?_⟩
      rw [List.cons_append, List.cons_append, lines_crlf, lines_crlf, h]
      rfl
  | case3 c rest noFeed hc ih =>
      match rest, noFeed, ih with
      | [], _, _ =>
          -- only here the line feed of the seam can be taken in
          by_cases hcr : c = '\r'
          · subst hcr
            exact ⟨[], nofun, lines_crlf⟩
          · have hline : lines [c] = [[]] := lines_cons_break hc nofun
            have hlines : lines (c :: '\n' :: b) = [] :: lines ('\n' :: b) :=
              lines_cons_break hc fun h => absurd h hcr
            exact ⟨[[]], by simp, by rw [List.singleton_append, hlines, lines_lf, hline]; rfl⟩
      | d :: rest, noFeed, ⟨seam, hseam, h⟩ =>
          have alone : c = '\r' → d ≠ '\n' := fun hc hd => noFeed rest hc (by rw [hd])
          refine ⟨seam, hseam, ?_⟩
          rw [List.cons_append, lines_cons_break hc fun h => by simpa using alone h,
            lines_cons_break hc fun h => by simpa using alone h, h]
          rfl
  | case4 c rest _ hc ih =>
      have hc : isLineBreak c = false := by simpa using hc
      match rest, ih with
      | [], _ =>
          refine ⟨[], nofun, ?_⟩
          rw [List.singleton_append, lines_cons_char hc, lines_cons_char hc, lines_lf]
          rfl
      | d :: rest, ⟨seam, hseam, h⟩ =>
          refine ⟨seam, hseam, ?_⟩
          rw [List.cons_append, lines_cons_char hc, lines_cons_char hc, h, List.append_assoc,
            growFirst_append c (lines_ne_nil (List.cons_ne_nil d rest)), ← List.append_assoc]

/-! ## Other breaks -/

/-- **One spelling for the common breaks leaves the lines as they are.** -/
theorem lines_unifyBreaks (t : Text) : lines (unifyBreaks t) = lines t := by
  fun_induction unifyBreaks t with
  | case1 => rfl
  | case2 rest ih => rw [lines_lf, lines_crlf, ih]
  | case3 rest noFeed ih =>
      rw [lines_lf, lines_cons_break (by decide) fun _ h => ?_, ih]
      obtain ⟨rest', rfl⟩ := List.head?_eq_some_iff.1 h
      exact noFeed rest' rfl
  | case4 c rest _ noReturn ih =>
      cases hc : isLineBreak c with
      | false => rw [lines_cons_char hc, lines_cons_char hc, ih]
      | true =>
          have hne : c ≠ '\r' := fun h => noReturn h
          rw [lines_cons_break hc fun h => absurd h hne,
            lines_cons_break hc fun h => absurd h hne, ih]

/-! ## What a line is -/

theorem mem_growFirst {l : Text} : ∀ {ls : List Text}, l ∈ growFirst c ls →
    l = [c] ∨ (∃ l' ∈ ls, l = c :: l') ∨ l ∈ ls
  | [], h => Or.inl (by simpa [growFirst] using h)
  | l' :: ls, h => by
      rcases List.mem_cons.1 h with rfl | h
      · exact Or.inr (Or.inl ⟨l', List.mem_cons_self, rfl⟩)
      · exact Or.inr (Or.inr (List.mem_cons_of_mem l' h))

/-- **A line has no break in it.** -/
theorem noBreak_of_mem_lines (t : Text) : ∀ l ∈ lines t, ∀ d ∈ l, isLineBreak d = false := by
  fun_induction lines t with
  | case1 => nofun
  | case2 rest ih =>
      intro l hl
      rcases List.mem_cons.1 hl with rfl | hl
      · nofun
      · exact ih l hl
  | case3 c rest _ hc ih =>
      intro l hl
      rcases List.mem_cons.1 hl with rfl | hl
      · nofun
      · exact ih l hl
  | case4 c rest _ hc ih =>
      intro l hl d hd
      have hc : isLineBreak c = false := by simpa using hc
      rcases mem_growFirst hl with rfl | ⟨l', hl', rfl⟩ | hl
      · rw [List.mem_singleton.1 hd, hc]
      · rcases List.mem_cons.1 hd with rfl | hd
        · exact hc
        · exact ih l' hl' d hd
      · exact ih l hl d hd

/-- A text without breaks is its only line. -/
theorem lines_of_noBreak : ∀ {t : Text}, t ≠ [] → (∀ d ∈ t, isLineBreak d = false) → lines t = [t]
  | [], h, _ => absurd rfl h
  | [c], _, h => by
      rw [lines_cons_char (h c List.mem_cons_self)]
      rfl
  | c :: d :: rest, _, h => by
      have ih := lines_of_noBreak (List.cons_ne_nil d rest) fun e he =>
        h e (List.mem_cons_of_mem c he)
      rw [lines_cons_char (h c List.mem_cons_self), ih]
      rfl

end ModuleRoster.Text
