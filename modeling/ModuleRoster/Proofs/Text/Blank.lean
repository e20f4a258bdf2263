import Mathlib.Data.List.TakeWhile
import ModuleRoster.Text.Blank

/-!
# Proofs/Text/Blank — what a trimmed text looks like

`IsTrimmed` says that no blank stands at either end.  Every trimmed text is such a text
(`isTrimmed_trim`), and such a text is left as it is (`trim_of_isTrimmed`).  What is taken away are
blanks on both sides (`exists_append_trim`), and blanks on both sides of such a text are taken away
(`trim_append`).
-/

namespace ModuleRoster.Text

/-! ## Blanks -/

/-- The code points of the blanks. -/
def blankCodes : List Nat :=
  [0x09, 0x0A, 0x0B, 0x0C, 0x0D, 0x1C, 0x1D, 0x1E, 0x1F, 0x20, 0x85, 0xA0, 0x1680, 0x2000, 0x2001,
    0x2002, 0x2003, 0x2004, 0x2005, 0x2006, 0x2007, 0x2008, 0x2009, 0x200A, 0x2028, 0x2029, 0x202F,
    0x205F, 0x3000]

/-- **Twenty-nine characters are blank.** -/
theorem isBlank_iff {c : Char} : isBlank c = true ↔ c.toNat ∈ blankCodes := by
  have hcodes : blankCodes = blankRanges.flatMap fun r => List.range' r.1 (r.2 + 1 - r.1) := by
    decide
  rw [hcodes, isBlank, List.any_eq_true, List.mem_flatMap]
  refine exists_congr fun r => and_congr_right fun _ => ?_
  simp only [Bool.and_eq_true, decide_eq_true_eq, List.mem_range'_1]
  omega

/-! ## Trimmed texts -/

/-- **No blank stands at either end.** -/
structure IsTrimmed (t : Text) : Prop where
  start : ∀ c, t.head? = some c → isBlank c = false
  stop : ∀ c, t.getLast? = some c → isBlank c = false

instance (t : Text) : Decidable (IsTrimmed t) :=
  -- the two characters are looked at; a quantifier over all characters could not be run
  decidable_of_iff (t.head?.any isBlank = false ∧ t.getLast?.any isBlank = false)
    ⟨fun ⟨start, stop⟩ => ⟨by simpa [Option.any_eq_false] using start,
        by simpa [Option.any_eq_false] using stop⟩,
      fun h => ⟨by simpa [Option.any_eq_false] using h.start,
        by simpa [Option.any_eq_false] using h.stop⟩⟩

theorem head?_trimStart {t : Text} {c : Char} (h : (trimStart t).head? = some c) :
    isBlank c = false := by
  have := List.head?_dropWhile_not isBlank t
  rw [← trimStart, h] at this
  simpa using this

/-- Trimming takes nothing into a text. -/
theorem trim_sublist (t : Text) : (trim t).Sublist t := by
  have hstart : (trimStart t).Sublist t := List.dropWhile_sublist _
  have hend : (trimStart (trimStart t).reverse).Sublist (trimStart t).reverse :=
    List.dropWhile_sublist _
  have hboth : (trim t).Sublist (trimStart t) := by simpa [trim, trimEnd] using hend.reverse
  exact hboth.trans hstart

/-- **A trimmed text has no blank at either end.** -/
theorem isTrimmed_trim (t : Text) : IsTrimmed (trim t) := by
  constructor
  · intro c hc
    -- what is left of the text behind its first blanks is a beginning of it
    have hstart : trim t <+: trimStart t := by
      have := (List.dropWhile_suffix (l := (trimStart t).reverse) isBlank).reverse
      simpa [trim, trimEnd, trimStart] using this
    obtain ⟨rest, hrest⟩ := hstart
    refine head?_trimStart (t := t) ?_
    rw [← hrest, List.head?_append, hc]
    rfl
  · intro c hc
    rw [trim, trimEnd, List.getLast?_reverse] at hc
    exact head?_trimStart hc

theorem trimStart_of_head {t : Text} (h : ∀ c, t.head? = some c → isBlank c = false) :
    trimStart t = t := by
  cases t with
  | nil => rfl
  | cons c t => exact List.dropWhile_cons_of_neg (by simp [h c rfl])

/-- **A text without blanks at its ends stays as it is.** -/
theorem trim_of_isTrimmed {t : Text} (h : IsTrimmed t) : trim t = t := by
  have hend : trimStart t.reverse = t.reverse :=
    trimStart_of_head fun c hc => h.stop c (by rwa [List.head?_reverse] at hc)
  rw [trim, trimStart_of_head h.start, trimEnd, hend, List.reverse_reverse]

/-! ## Blanks on both sides -/

theorem exists_append_trimStart (t : Text) :
    ∃ u, t = u ++ trimStart t ∧ ∀ c ∈ u, isBlank c = true :=
  ⟨t.takeWhile isBlank, List.takeWhile_append_dropWhile.symm, fun _ => List.mem_takeWhile_imp⟩

/-- **Trimming takes blanks away on both sides.** -/
theorem exists_append_trim (t : Text) : ∃ u v, t = u ++ trim t ++ v ∧
    (∀ c ∈ u, isBlank c = true) ∧ ∀ c ∈ v, isBlank c = true := by
  obtain ⟨u, hu, blank⟩ := exists_append_trimStart t
  obtain ⟨v, hv, blank'⟩ := exists_append_trimStart (trimStart t).reverse
  refine ⟨u, v.reverse, ?_, blank, fun c hc => blank' c (List.mem_reverse.1 hc)⟩
  have hend : trimStart t = trim t ++ v.reverse := by
    simpa [trim, trimEnd] using congrArg List.reverse hv
  rw [List.append_assoc, ← hend, ← hu]

theorem trimStart_append {u t : Text} (blank : ∀ c ∈ u, isBlank c = true)
    (h : ∀ c, t.head? = some c → isBlank c = false) : trimStart (u ++ t) = t := by
  rw [trimStart, List.dropWhile_append_of_pos blank]
  exact trimStart_of_head h

/-- **It takes away all of them.** -/
theorem trim_append {u n v : Text} (hne : n ≠ []) (h : IsTrimmed n)
    (blank : ∀ c ∈ u, isBlank c = true) (blank' : ∀ c ∈ v, isBlank c = true) :
    trim (u ++ n ++ v) = n := by
  have hstart : trimStart (u ++ n ++ v) = n ++ v := by
    obtain ⟨d, rest, rfl⟩ := List.exists_cons_of_ne_nil hne
    rw [List.append_assoc]
    exact trimStart_append blank fun c hc => h.start c hc
  have hend : trimStart (n ++ v).reverse = n.reverse := by
    rw [List.reverse_append]
    refine trimStart_append (fun c hc => blank' c (List.mem_reverse.1 hc)) fun c hc => h.stop c ?_
    rwa [List.head?_reverse] at hc
  rw [trim, hstart, trimEnd, hend, List.reverse_reverse]

end ModuleRoster.Text
