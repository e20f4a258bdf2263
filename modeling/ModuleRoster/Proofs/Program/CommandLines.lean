import ModuleRoster.Program
import ModuleRoster.Proofs.CommandLine.OptionGroup

/-!
# Proofs/Program/CommandLines — what a run makes of the words of its command line

A line of option groups is one request however it is spelled, so a run does with it what it does
with the canonical line (`run_eq_run_canonical`).  A line with a word between two groups that is not
at its place is refused, and a line with the help option there is answered with the help; in both
cases the run has not looked at the machine or the tree (`run_neverActs`).
-/

namespace ModuleRoster

/-! ## The canonical line -/

namespace OptionGroup

/-- **The canonical line**: the verbose option if any group has it, and the last value if there is
one. -/
def canonical (groups : List OptionGroup) : List Text :=
  (if groups.any isVerbose then ["-v".toList] else []) ++
    (lastValue? groups).elim [] fun value => ["--output-file=".toList ++ value]

/-- The word of the output option in full. -/
def fullOutput : Abbreviation .output :=
  ⟨Switch.output.longForm, List.prefix_rfl, by decide⟩

/-- The groups of the canonical line. -/
def canonicalGroups (groups : List OptionGroup) : List OptionGroup :=
  (if groups.any isVerbose then [.verboseLetters (.plain 0)] else []) ++
    (lastValue? groups).elim [] fun value => [.assigned fullOutput value]

theorem line_canonicalGroups (groups : List OptionGroup) :
    line (canonicalGroups groups) = canonical groups := by
  unfold canonicalGroups canonical
  cases groups.any isVerbose <;> cases lastValue? groups <;> rfl

theorem settings_canonicalGroups (groups : List OptionGroup) :
    settings (canonicalGroups groups) = settings groups := by
  unfold canonicalGroups settings after
  cases groups.any isVerbose <;> cases lastValue? groups <;> rfl

/-- **The canonical line asks for the same.** -/
theorem ofWords_canonical (groups : List OptionGroup) :
    Request.ofWords (canonical groups) = .ok (.list (settings groups)) := by
  rw [← line_canonicalGroups, ofWords_line, settings_canonicalGroups]

end OptionGroup

/-! ## A word between groups -/

/-- **A stray word**: it does not begin with a hyphen, or it begins with two and what is in front of
its equals sign fits no option. -/
def IsStray (word : Text) : Prop :=
  word.head? ≠ some '-' ∨
    "--".toList <+: word ∧ 2 < word.length ∧
      ∀ s : Switch, ¬word.takeWhile (· != '=') <+: s.longForm

/-- **A word that asks for help**: the letter of the help option, or its word, perhaps cut short. -/
def IsHelp (word : Text) : Prop := word = "-h".toList ∨ ∃ a : Abbreviation .help, a.word = word

variable {word rest : Text} {token : Token}

/-- A stray word is left over. -/
theorem IsStray.ofWord (h : IsStray word) :
    Token.ofWord word = .ok (.operand word) ∨ Token.ofWord word = .ok (.unknown word) := by
  rcases h with noHyphen | ⟨⟨rest, rfl⟩, -, fitsNone⟩
  · exact Or.inl (Token.IsOperand.ofWord (Or.inl noHyphen))
  · have none : Switch.candidates (Token.splitValue rest).1 = [] := by
      refine List.eq_nil_iff_forall_not_mem.2 fun s hs => fitsNone s ?_
      rw [Switch.mem_candidates, Token.fst_splitValue] at hs
      exact List.cons_prefix_cons.2 ⟨rfl, List.cons_prefix_cons.2 ⟨rfl, hs⟩⟩
    have hword : Token.ofWord ("--".toList ++ rest) = .ok (Token.ofOther ('-' :: rest)) := by
      change Token.ofWord ('-' :: '-' :: rest) = _
      simp only [Token.ofWord, none]
    rw [hword, Token.ofOther]
    split
    · exact Or.inl rfl
    · exact Or.inr rfl

/-- A stray word is added to the words that are left over. -/
theorem IsStray.exists_token (h : IsStray word) :
    ∃ token, Token.ofWord word = .ok token ∧ ∀ s left tokens,
      Request.ofTokens s left (token :: tokens) = Request.ofTokens s (left ++ [word]) tokens := by
  rcases h.ofWord with hword | hword
  · exact ⟨_, hword, fun _ _ _ => rfl⟩
  · exact ⟨_, hword, fun _ _ _ => rfl⟩

/-- A word that asks for help is the help option. -/
theorem IsHelp.ofWord (h : IsHelp word) :
    ∃ form, Token.ofWord word = .ok (.option .help form none) := by
  rcases h with rfl | ⟨a, rfl⟩
  · exact ⟨.letter, rfl⟩
  · exact ⟨.word, a.ofWord.1⟩

/-- **A word between two lines of groups** is read when the first has been read, and the second is
read by itself. -/
theorem Request.ofWords_between (hword : Token.ofWord word = .ok token)
    (before after : List OptionGroup) :
    ∃ tokens, ofWords (OptionGroup.line before ++ word :: OptionGroup.line after)
        = ofTokens (OptionGroup.after before .initial) [] (token :: tokens) ∧
      ∀ s left, ofTokens s left tokens = ofTokens (OptionGroup.after after s) left [] := by
  obtain ⟨tokens, hwords, htokens⟩ := OptionGroup.takes_line before
  obtain ⟨tokens', hwords', htokens'⟩ := OptionGroup.takes_line after
  have hafter : Token.ofWords (OptionGroup.line after) = .ok tokens' := by
    have := hwords' []
    rw [List.append_nil] at this
    exact this.trans (congrArg Except.ok (List.append_nil tokens'))
  refine ⟨tokens', ?_, fun s left => ?_⟩
  · rw [ofWords, hwords, Token.ofWords_cons hword, hafter, ← htokens]
    rfl
  · rw [← htokens', List.append_nil]

namespace Program

/-- **A line of groups has one meaning however it is spelled**: a run does with it what it does with
the canonical line, which is to list with the settings that the groups name. -/
theorem run_eq_run_canonical (invocation : Invocation) (groups : List OptionGroup) (m : Machine)
    (tree : FileTree) :
    run invocation (OptionGroup.line groups) m tree
        = run invocation (OptionGroup.canonical groups) m tree ∧
      run invocation (OptionGroup.canonical groups) m tree
        = list (OptionGroup.settings groups) m tree := by
  simp only [run, plan, list, OptionGroup.ofWords_line, OptionGroup.ofWords_canonical, and_self]

/-- The last value counts, with all its equals signs, and the verbose option in any group. -/
example : OptionGroup.canonical
    [.apart (.letter (.plain 0)) "a".toList (Or.inl (by decide)),
      .joined (.plain 2) "b=c".toList nofun]
      = ["-v".toList, "--output-file=b=c".toList] := rfl

/-- **A misused line and a line with the help option never act**: wherever the word stands between
the groups, and whatever the machine and the tree are, the answer is the same, and the tree is as
before. -/
theorem run_neverActs (invocation : Invocation) (before after : List OptionGroup) (word : Text) :
    let words := OptionGroup.line before ++ word :: OptionGroup.line after
    (IsStray word → ∀ m tree, run invocation words m tree
      = (⟨2, [], Misuse.complaint invocation.name (.unrecognized [word]), none⟩, tree)) ∧
    (IsHelp word → ∀ m tree, run invocation words m tree
      = (⟨0, helpText invocation.name, [], none⟩, tree)) := by
  intro words
  refine ⟨fun stray m tree => ?_, fun help m tree => ?_⟩
  · have hwords : Request.ofWords words = .error (.unrecognized [word]) := by
      obtain ⟨token, hword, hleft⟩ := stray.exists_token
      obtain ⟨tokens, hline, hafter⟩ := Request.ofWords_between hword before after
      exact hline.trans ((hleft _ [] tokens).trans (hafter _ [word]))
    rw [run, plan, hwords, Plan.carryOut]
  · have hwords : Request.ofWords words = .ok .help := by
      obtain ⟨form, hword⟩ := help.ofWord
      obtain ⟨tokens, hline, -⟩ := Request.ofWords_between hword before after
      exact hline
    rw [run, plan, hwords, Plan.carryOut]

/-- Behind a value that has been taken, in front of an output option that names a file, and on a
machine without a registry. -/
theorem run_neverActs_between :
    let before : List OptionGroup := [.apart (.letter (.plain 1)) "a".toList (Or.inl (by decide))]
    let after : List OptionGroup := [.assigned OptionGroup.fullOutput "b".toList]
    let m : Machine := ⟨none, 7, ⟨[.nan]⟩⟩
    let tree : FileTree := ⟨[(["b".toList], .file [0x78])]⟩
    OptionGroup.line before = ["-vo".toList, "a".toList] ∧
      (IsStray "--lst=x".toList ∧
        run .command (OptionGroup.line before ++ "--lst=x".toList :: OptionGroup.line after) m tree
          = (⟨2, [], Misuse.complaint Invocation.command.name (.unrecognized ["--lst=x".toList]),
            none⟩, tree)) ∧
      (IsHelp "-h".toList ∧
        run .command (OptionGroup.line before ++ "-h".toList :: OptionGroup.line after) m tree
          = (⟨0, helpText Invocation.command.name, [], none⟩, tree)) := by
  intro before after m tree
  have stray : IsStray "--lst=x".toList :=
    Or.inr ⟨by decide, by decide, fun s => by cases s <;> decide⟩
  have help : IsHelp "-h".toList := Or.inl rfl
  exact ⟨rfl, ⟨stray, (run_neverActs .command before after _).1 stray m tree⟩, help,
    (run_neverActs .command before after _).2 help m tree⟩

end Program

end ModuleRoster
