import ModuleRoster.Proofs.CommandLine.Words

/-!
# Proofs/CommandLine/OptionGroup — the ways to spell an option, and what they are read as

An **option group** is an option together with its value, spelled in one word or in two.  A command
line made of groups is read group by group, whatever comes behind them (`Request.Takes`,
`OptionGroup.takes_line`), so it asks for a list with the settings that the groups name
(`OptionGroup.ofWords_line`).
-/

namespace ModuleRoster

/-! ## Spellings -/

/-- **The word of an option, perhaps cut short**: its hyphens and at least one letter are there. -/
structure Abbreviation (s : Switch) where
  word : Text
  isBeginning : word <+: s.longForm
  three_le : 3 ≤ word.length

/-- **What stands in front of the last letter of a short word**: a hyphen, and perhaps letters of
the verbose option.  An equals sign behind the first of them makes no difference. -/
inductive Lead
  | plain (letters : Nat)
  | signed (letters : Nat)

namespace Lead

def text : Lead → Text
  | .plain letters => '-' :: List.replicate letters 'v'
  | .signed letters => '-' :: 'v' :: '=' :: List.replicate letters 'v'

/-- How often the verbose option is there. -/
def count : Lead → Nat
  | .plain letters => letters
  | .signed letters => letters + 1

/-- The value that is joined to the output option: an equals sign right behind the option is no
part of it, if the option has the word to itself. -/
def valueOf (lead : Lead) : Text → Text
  | '=' :: value => if lead.count = 0 then value else '=' :: value
  | value => value

end Lead

/-- The output option without a value. -/
inductive OutputOption
  | letter (lead : Lead)
  | word (a : Abbreviation .output)

namespace OutputOption

def text : OutputOption → Text
  | .letter lead => lead.text ++ ['o']
  | .word a => a.word

/-- Is the verbose option there too? -/
def isVerbose : OutputOption → Bool
  | .letter lead => lead.count != 0
  | .word _ => false

end OutputOption

/-- **A word that can be a value of its own**: it does not begin with a hyphen, or it is an operand
all the same, as a negative number is. -/
def Token.IsOperand (word : Text) : Prop :=
  word.head? ≠ some '-' ∨ Token.ofWord word = .ok (.operand word)

/-- **An option with its value.** -/
inductive OptionGroup
  /-- As in `-v` and `-vvv`. -/
  | verboseLetters (lead : Lead)
  /-- As in `--verb`. -/
  | verboseWord (a : Abbreviation .verbose)
  /-- The value is the next word, as in `-vo list` and `--out list`. -/
  | apart (option : OutputOption) (value : Text) (isOperand : Token.IsOperand value)
  /-- The value is joined to the letter, as in `-olist` and `-vvolist`. -/
  | joined (lead : Lead) (value : Text) (ne_nil : value ≠ [])
  /-- The value is behind an equals sign, as in `--out=list`. -/
  | assigned (a : Abbreviation .output) (value : Text)

namespace OptionGroup

/-- The words of a group. -/
def words : OptionGroup → List Text
  | .verboseLetters lead => [lead.text ++ ['v']]
  | .verboseWord a => [a.word]
  | .apart option value _ => [option.text, value]
  | .joined lead value _ => [lead.text ++ 'o' :: value]
  | .assigned a value => [a.word ++ '=' :: value]

/-- Is the verbose option in the group? -/
def isVerbose : OptionGroup → Bool
  | .verboseLetters _ => true
  | .verboseWord _ => true
  | .apart option _ _ => option.isVerbose
  | .joined lead _ _ => lead.count != 0
  | .assigned .. => false

/-- The value that the group gives to the output option. -/
def value? : OptionGroup → Option Text
  | .verboseLetters _ => none
  | .verboseWord _ => none
  | .apart _ value _ => some value
  | .joined lead value _ => some (lead.valueOf value)
  | .assigned _ value => some value

/-- **The command line that spells groups**, one behind the other. -/
def line (groups : List OptionGroup) : List Text := groups.flatMap words

/-- The last value that the groups give to the output option. -/
def lastValue? (groups : List OptionGroup) : Option Text := (groups.filterMap value?).getLast?

/-- The output path that a value stands for; the divider counts as no value. -/
def pathOf (value : Text) : Text := if value = Token.dividerWord then [] else value

/-- The settings after groups: the verbose option in any of them counts, and the last value. -/
def after (groups : List OptionGroup) (s : Settings) : Settings where
  verbose := s.verbose || groups.any isVerbose
  output := ((lastValue? groups).map pathOf).or s.output

/-- **The settings that groups name.** -/
def settings (groups : List OptionGroup) : Settings := after groups .initial

end OptionGroup

/-! ## Words of options -/

section Words

variable {s : Switch} {value rest : Text}

/-- The letters of an abbreviation are the beginning of a word. -/
theorem Abbreviation.exists_letters (a : Abbreviation s) :
    ∃ letters, letters ≠ [] ∧ letters <+: s.word ∧ a.word = '-' :: '-' :: letters := by
  obtain ⟨word, isBeginning, three_le⟩ := a
  match word, three_le with
  | c :: d :: e :: letters, _ =>
      have h := isBeginning
      rw [Switch.longForm, List.cons_prefix_cons, List.cons_prefix_cons] at h
      obtain ⟨rfl, rfl, h⟩ := h
      exact ⟨e :: letters, List.cons_ne_nil e letters, h, rfl⟩

/-- **An abbreviation is its option**, whether or not a value is assigned to it. -/
theorem Abbreviation.ofWord (a : Abbreviation s) :
    Token.ofWord a.word = .ok (.option s .word none) ∧
      ∀ value, Token.ofWord (a.word ++ '=' :: value) = .ok (.option s .word (some value)) := by
  obtain ⟨letters, hne, h, hword⟩ := a.exists_letters
  have noSign : '=' ∉ letters := fun hmem => s.noSign_word (h.subset hmem)
  have candidates := Switch.candidates_of_beginning hne h
  rw [hword]
  refine ⟨?_, fun value => ?_⟩
  · simp only [Token.ofWord, Token.splitValue_of_noSign noSign, candidates]
  · simp only [List.cons_append, Token.ofWord, Token.splitValue_append noSign, candidates]

/-! ## Clusters of letters -/

namespace Cluster

/-- The verbose option so many times, and perhaps the output option behind it. -/
def counted (n : Nat) (output : Option Value) : Cluster := ⟨List.replicate n .verbose, output⟩

/-- A cluster with so many letters of the verbose option in front. -/
def behind (n : Nat) (c : Cluster) : Cluster :=
  { c with flags := List.replicate n .verbose ++ c.flags }

theorem counted_behind (n k : Nat) (output : Option Value) :
    (counted k output).behind n = counted (n + k) output := by
  simp [behind, counted]

/-- **Letters of the verbose option** come one by one; what is behind them is read as if it stood
behind the first. -/
theorem ofLetters_verbose (rest : Text) : ∀ n : Nat,
    ofLetters .verbose (List.replicate n 'v' ++ rest) = (ofLetters .verbose rest).map (behind n)
  | 0 => (congrFun Except.map_id (ofLetters .verbose rest)).symm
  | n + 1 => by
      have hletter : Switch.ofLetter? 'v' = some .verbose := rfl
      rw [List.replicate_succ, List.cons_append, ofLetters, if_neg (by decide), hletter]
      simp only [ofLetters_verbose rest n, Except.map_map]
      rfl

end Cluster

/-- **A word is read as a cluster of options.** -/
def Token.Holds (word : Text) (c : Cluster) : Prop :=
  ∃ s form value, Token.ofWord word = .ok (.option s form value) ∧
    Cluster.ofOption s form value = .ok c

namespace Lead

variable {lead : Lead} {c : Char} {n k : Nat} {output : Option Value}

theorem text_of_count_eq_zero (h : lead.count = 0) : lead.text = ['-'] := by
  match lead with
  | .plain 0 => rfl

theorem attached_eq_valueOf (h : lead.count = 0) (hne : value ≠ []) :
    Token.attached value = some (lead.valueOf value) := by
  obtain ⟨c, rest, rfl⟩ := List.exists_cons_of_ne_nil hne
  unfold Token.attached valueOf
  split
  · contradiction
  · simp_all
  · simp_all

theorem valueOf_of_count (h : lead.count = n + 1) : lead.valueOf value = value := by
  unfold valueOf
  split
  · rw [if_neg (by omega)]
  · rfl

/-- Behind a first `v` all is attached to it. -/
theorem ofWord_of_count (h : lead.count = n + 1) (hc : c ≠ '=') (rest : Text) :
    Token.ofWord (lead.text ++ c :: rest)
      = .ok (.option .verbose .letter (some (List.replicate n 'v' ++ c :: rest))) := by
  match lead, n, h with
  | .plain 1, 0, _ =>
      exact congrArg (fun v => Except.ok (Token.option .verbose .letter v))
        (Token.attached_cons hc rest)
  | .plain (n + 2), _, rfl => rfl
  | .signed n, _, rfl => rfl

/-- **Behind a first `v`** the rest is read as if it were a word of its own. -/
theorem holds_of_count (h : lead.count = n + 1) (hc : c ≠ '=')
    (hletters : Cluster.ofLetters .verbose (c :: rest) = .ok (.counted k output)) :
    Token.Holds (lead.text ++ c :: rest) (.counted (n + k) output) := by
  refine ⟨.verbose, .letter, _, ofWord_of_count h hc rest, ?_⟩
  have hne : List.replicate n 'v' ++ c :: rest ≠ [] := by simp
  rw [Cluster.ofOption, if_neg (by decide), if_neg (by simp [hne]), Cluster.ofLetters_verbose,
    hletters]
  exact congrArg Except.ok (Cluster.counted_behind n k output)

theorem holds_verbose (lead : Lead) :
    Token.Holds (lead.text ++ ['v']) (.counted (lead.count + 1) none) := by
  rcases hcount : lead.count with _ | n
  · rw [text_of_count_eq_zero hcount]
    exact ⟨.verbose, .letter, none, rfl, rfl⟩
  · exact holds_of_count (k := 2) hcount (by decide) rfl

/-- The output option at the end of a word waits for its value. -/
theorem holds_awaited (lead : Lead) :
    Token.Holds (lead.text ++ ['o']) (.counted lead.count (some .awaited)) := by
  rcases hcount : lead.count with _ | n
  · rw [text_of_count_eq_zero hcount]
    exact ⟨.output, .letter, none, rfl, rfl⟩
  · exact holds_of_count hcount (by decide) rfl

/-- What is joined to the output option is its value. -/
theorem holds_joined (lead : Lead) (hne : value ≠ []) :
    Token.Holds (lead.text ++ 'o' :: value)
      (.counted lead.count (some (Cluster.attach (lead.valueOf value)))) := by
  rcases hcount : lead.count with _ | n
  · rw [text_of_count_eq_zero hcount]
    exact ⟨.output, .letter, some (lead.valueOf value),
      by rw [← attached_eq_valueOf hcount hne]; rfl, rfl⟩
  · have hletters : Cluster.ofLetters .verbose ('o' :: value)
        = .ok (.counted 1 (some (Cluster.attach value))) := by
      obtain ⟨c, rest, rfl⟩ := List.exists_cons_of_ne_nil hne
      rfl
    rw [valueOf_of_count hcount]
    exact holds_of_count hcount (by decide) hletters

end Lead

end Words

/-! ## Words in a line -/

section Lines

variable {word value : Text} {words words' : List Text} {f f' : Settings → Settings} {n : Nat}

theorem Token.IsOperand.ofWord (h : IsOperand word) : ofWord word = .ok (.operand word) := by
  rcases h with noHyphen | h
  · unfold Token.ofWord
    split
    · simp at noHyphen
    · simp at noHyphen
    · rfl
  · exact h

namespace Request

/-- **Words that are read by themselves**: whatever the words behind them are, and whatever was read
before, they take the settings on by `f`. -/
def Takes (words : List Text) (f : Settings → Settings) : Prop :=
  ∃ tokens, (∀ rest, Token.ofWords (words ++ rest) = (Token.ofWords rest).map (tokens ++ ·)) ∧
    ∀ s left rest, ofTokens s left (tokens ++ rest) = ofTokens (f s) left rest

theorem takes_nil : Takes [] id := by
  refine ⟨[], fun rest => ?_, fun s left rest => rfl⟩
  exact (congrFun Except.map_id (Token.ofWords rest)).symm

theorem Takes.append (h : Takes words f) (h' : Takes words' f') :
    Takes (words ++ words') (f' ∘ f) := by
  obtain ⟨tokens, hwords, htokens⟩ := h
  obtain ⟨tokens', hwords', htokens'⟩ := h'
  refine ⟨tokens ++ tokens', fun rest => ?_, fun s left rest => ?_⟩
  · rw [List.append_assoc, hwords, hwords', Except.map_map]
    exact congrFun (congrArg Except.map (funext fun ts => (List.append_assoc _ _ ts).symm)) _
  · rw [List.append_assoc, htokens, htokens', Function.comp_apply]

/-- The settings after a cluster. -/
theorem after_counted (s : Settings) (n : Nat) (output : Option Value) (value : Option Text) :
    s.after (.counted n output) value = ⟨s.verbose || n != 0, value.or s.output⟩ := by
  rcases n with _ | n
  · rfl
  · rfl

theorem not_asksHelp_counted (n : Nat) (output : Option Value) :
    ¬(Cluster.counted n output).asksHelp = true := by
  simp [Cluster.asksHelp, Cluster.counted]

/-- A word without the output option. -/
theorem takes_of_none (h : Token.Holds word (.counted n none)) :
    Takes [word] fun s => ⟨s.verbose || n != 0, s.output⟩ := by
  obtain ⟨switch, form, attached, hword, hcluster⟩ := h
  refine ⟨[.option switch form attached], Token.ofWords_cons hword, fun s left rest => ?_⟩
  rw [List.singleton_append, ofTokens, hcluster]
  exact (if_neg (not_asksHelp_counted n none)).trans (by rw [after_counted]; rfl)

/-- A word with the output option and its value. -/
theorem takes_of_given (h : Token.Holds word (.counted n (some (.given value)))) :
    Takes [word] fun s => ⟨s.verbose || n != 0, some value⟩ := by
  obtain ⟨switch, form, attached, hword, hcluster⟩ := h
  refine ⟨[.option switch form attached], Token.ofWords_cons hword, fun s left rest => ?_⟩
  rw [List.singleton_append, ofTokens, hcluster]
  exact (if_neg (not_asksHelp_counted n _)).trans (by rw [after_counted]; rfl)

/-- A word with the output option, and its value in the next word. -/
theorem takes_of_awaited (h : Token.Holds word (.counted n (some .awaited)))
    (isOperand : Token.IsOperand value) :
    Takes [word, value] fun s => ⟨s.verbose || n != 0, some value⟩ := by
  obtain ⟨switch, form, attached, hword, hcluster⟩ := h
  refine ⟨[.option switch form attached, .operand value], fun rest => ?_, fun s left rest => ?_⟩
  · rw [List.cons_append, Token.ofWords_cons hword, List.cons_append,
      Token.ofWords_cons isOperand.ofWord, List.nil_append, Except.map_map]
    rfl
  · rw [List.cons_append, List.singleton_append, ofTokens, hcluster]
    exact (if_neg (not_asksHelp_counted n _)).trans (by rw [after_counted]; rfl)

end Request

end Lines

/-! ## Lines of groups -/

namespace OptionGroup

theorem lastValue?_cons (g : OptionGroup) (groups : List OptionGroup) :
    lastValue? (g :: groups) = (lastValue? groups).or g.value? := by
  unfold lastValue?
  rcases hg : g.value? with _ | value
  · rw [List.filterMap_cons_none hg, Option.or_none]
  · rw [List.filterMap_cons_some hg, List.getLast?_cons]
    cases (groups.filterMap value?).getLast? <;> rfl

theorem after_singleton (g : OptionGroup) (s : Settings) :
    after [g] s = ⟨s.verbose || g.isVerbose, (g.value?.map pathOf).or s.output⟩ := by
  simp [after, lastValue?]

theorem after_cons (g : OptionGroup) (groups : List OptionGroup) :
    after (g :: groups) = after groups ∘ after [g] := by
  funext s
  rw [Function.comp_apply, after_singleton]
  simp [after, lastValue?_cons, Bool.or_assoc, Option.map_or, Option.or_assoc]

/-- A value of its own is the output path as it is. -/
theorem pathOf_of_isOperand {value : Text} (h : Token.IsOperand value) : pathOf value = value := by
  refine if_neg ?_
  rintro rfl
  cases h.ofWord

/-- **A group is read by itself.** -/
theorem takes_words (g : OptionGroup) : Request.Takes g.words (after [g]) := by
  have hafter : after [g] = fun s =>
      ⟨s.verbose || g.isVerbose, (g.value?.map pathOf).or s.output⟩ := funext (after_singleton g)
  rw [hafter]
  match g with
  | .verboseLetters lead => exact Request.takes_of_none lead.holds_verbose
  | .verboseWord a =>
      exact Request.takes_of_none (n := 1) ⟨.verbose, .word, none, a.ofWord.1, rfl⟩
  | .apart option value isOperand =>
      simp only [value?, Option.map_some, pathOf_of_isOperand isOperand, Option.some_or]
      match option with
      | .letter lead => exact Request.takes_of_awaited lead.holds_awaited isOperand
      | .word a =>
          exact Request.takes_of_awaited (n := 0) ⟨.output, .word, none, a.ofWord.1, rfl⟩ isOperand
  | .joined lead value ne_nil =>
      exact Request.takes_of_given (lead.holds_joined ne_nil)
  | .assigned a value =>
      exact Request.takes_of_given (n := 0) ⟨.output, .word, some value, a.ofWord.2 value, rfl⟩

/-- **A line of groups is read by itself.** -/
theorem takes_line : ∀ groups : List OptionGroup, Request.Takes (line groups) (after groups)
  | [] => by
      have hafter : after [] = id := funext fun s => by simp [after, lastValue?]
      exact hafter ▸ Request.takes_nil
  | g :: groups => by
      rw [after_cons]
      exact g.takes_words.append (takes_line groups)

/-- **A line of groups asks for a list**, with the settings that the groups name. -/
theorem ofWords_line (groups : List OptionGroup) :
    Request.ofWords (line groups) = .ok (.list (settings groups)) := by
  obtain ⟨tokens, hwords, htokens⟩ := takes_line groups
  rw [Request.ofWords, ← List.append_nil (line groups), hwords]
  exact htokens .initial [] []

end OptionGroup

end ModuleRoster
