import ModuleRoster.Proofs.Roster.Parse
import ModuleRoster.Proofs.Text.WholeLine

/-!
# Proofs/Roster/StandsAlone — the names in a written list are those that stand alone on a line

How a list is taken apart does not show in what is read: a clean name is read just if it stands
somewhere in the text with nothing but blanks between it and the ends of its line
(`mem_parse_iff_standsAlone`).
-/

namespace ModuleRoster

namespace Text

/-- **Blanks that stay on their line.** -/
def IsPadding (u : Text) : Prop := ∀ c ∈ u, isBlank c = true ∧ isLineBreak c = false

/-- **A text stands alone on a line of another**: with padding on both sides it reaches from the
beginning or a break to a break or the end. -/
def StandsAlone (n t : Text) : Prop :=
  ∃ a u v b, t = a ++ u ++ n ++ v ++ b ∧ EndsLine a ∧ IsPadding u ∧ IsPadding v ∧ StartsBreak b

variable {n l t : Text}

/-- The trimmed form of a line stands alone. -/
theorem standsAlone_trim (hl : l ∈ lines t) (hne : l ≠ []) : StandsAlone (trim l) t := by
  obtain ⟨noBreak, a, b, rfl, ha, hb⟩ := (mem_lines_iff hne).1 hl
  obtain ⟨u, v, hparts, blank, blank'⟩ := exists_append_trim l
  refine ⟨a, u, v, b, ?_, ha, fun c hc => ⟨blank c hc, noBreak c ?_⟩,
    fun c hc => ⟨blank' c hc, noBreak c ?_⟩, hb⟩
  · calc a ++ l ++ b = a ++ (u ++ trim l ++ v) ++ b := by rw [← hparts]
      _ = a ++ u ++ trim l ++ v ++ b := by simp
  · rw [hparts]
    simp [hc]
  · rw [hparts]
    simp [hc]

/-- **A clean name that stands alone is the trimmed form of a line.** -/
theorem StandsAlone.exists_line (h : StandsAlone n t) (clean : IsClean n) :
    ∃ l ∈ lines t, trim l = n := by
  obtain ⟨a, u, v, b, rfl, ha, hu, hv, hb⟩ := h
  have noBreak : ∀ c ∈ u ++ n ++ v, isLineBreak c = false := by
    intro c hc
    rcases List.mem_append.1 hc with hc | hc
    · rcases List.mem_append.1 hc with hc | hc
      · exact (hu c hc).2
      · exact clean.noBreak c hc
    · exact (hv c hc).2
  have hne : u ++ n ++ v ≠ [] := by simp [clean.ne_nil]
  refine ⟨u ++ n ++ v, (mem_lines_iff hne).2 ⟨noBreak, a, b, by simp, ha, hb⟩, ?_⟩
  exact trim_append clean.ne_nil clean.trimmed (fun c hc => (hu c hc).1) fun c hc => (hv c hc).1

end Text

namespace ModuleSet

/-- **The names in a written list are the clean ones that stand alone on a line.**  Ten characters
end a line, and twenty-nine are blank. -/
theorem mem_parse_iff_standsAlone (t n : Text) :
    (n ∈ parse t ↔ Text.IsClean n ∧ Text.StandsAlone n t) ∧
      (∀ c, Text.isLineBreak c = true ↔ c.toNat ∈ Text.breakCodes) ∧
      ∀ c, Text.isBlank c = true ↔ c.toNat ∈ Text.blankCodes := by
  refine ⟨?_, fun _ => Text.isLineBreak_iff, fun _ => Text.isBlank_iff⟩
  rw [mem_parse]
  constructor
  · intro h
    obtain ⟨hne, l, hl, rfl⟩ := mem_namesIn.1 h
    refine ⟨isClean_of_mem_namesIn h, Text.standsAlone_trim hl ?_⟩
    rintro rfl
    exact hne rfl
  · rintro ⟨clean, alone⟩
    exact mem_namesIn.2 ⟨clean.ne_nil, alone.exists_line clean⟩

/-- A no-break space is stripped, and a zero-width space is part of the name. -/
example : (parse "\x1fos\u00a0\r\n\u200bre".toList).names = ["os".toList, "\u200bre".toList] := by
  decide

end ModuleSet

end ModuleRoster
