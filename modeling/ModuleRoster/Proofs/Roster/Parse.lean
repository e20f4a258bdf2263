import Mathlib.Data.List.Sort
import ModuleRoster.Proofs.Text.Blank
import ModuleRoster.Proofs.Text.Lines
import ModuleRoster.Roster.ModuleSet

/-!
# Proofs/Roster/Parse — the names in a written list

`namesIn` is the list of names that a text is read as, before it is made a set.  Two texts with a
line feed between them have the names of both (`namesIn_append`), so a list of texts written one to
a line has the names of all of them (`parse_unlines`).  A name is clean if it can stand on a line of
its own: exactly such names come out of a text (`isClean_of_mem_namesIn`), and each of them stands
for itself (`namesIn_of_isClean`).
-/

namespace ModuleRoster

/-- **A name that can stand on a line of its own**: it is not empty, has no blank at either end and
no line break in it. -/
structure Text.IsClean (n : Text) : Prop where
  ne_nil : n ≠ []
  trimmed : Text.IsTrimmed n
  noBreak : ∀ c ∈ n, Text.isLineBreak c = false

instance (n : Text) : Decidable (Text.IsClean n) :=
  decidable_of_iff (n ≠ [] ∧ Text.IsTrimmed n ∧ n.any Text.isLineBreak = false)
    ⟨fun ⟨ne_nil, trimmed, noBreak⟩ => ⟨ne_nil, trimmed, by simpa using noBreak⟩,
      fun h => ⟨h.ne_nil, h.trimmed, by simpa using h.noBreak⟩⟩

namespace ModuleSet

variable {s t : ModuleSet} {n : Text}

/-! ## Sets and their members -/

/-- **Sets with the same members are the same.** -/
theorem ext_mem (h : ∀ n, n ∈ s ↔ n ∈ t) : s = t := by
  have irrefl : Std.Irrefl Text.Before := ⟨fun _ h => h.2 rfl⟩
  have antisymm : Std.Antisymm Text.Before := ⟨fun _ _ h h' => Text.le_antisymm h.1 h'.1⟩
  obtain ⟨ns, hns⟩ := s
  obtain ⟨ms, hms⟩ := t
  obtain rfl : ns = ms := hns.eq_of_mem_iff hms h
  rfl

theorem ofList_eq_ofList_iff {ns ms : List Text} :
    ofList ns = ofList ms ↔ ∀ n, n ∈ ns ↔ n ∈ ms := by
  refine ⟨fun h n => ?_, fun h => ext_mem fun n => by simpa using h n⟩
  rw [← mem_ofList, h, mem_ofList]

/-- **All members of some sets.** -/
def unionOf (sets : List ModuleSet) : ModuleSet := ofList (sets.flatMap names)

theorem mem_unionOf {sets : List ModuleSet} : n ∈ unionOf sets ↔ ∃ s ∈ sets, n ∈ s := by
  rw [unionOf, mem_ofList, List.mem_flatMap]
  rfl

/-! ## Names in texts -/

/-- The names that a text is read as, in order and as often as they stand there. -/
def namesIn (t : Text) : List Text := ((Text.lines t).map Text.trim).filter fun n => !n.isEmpty

theorem parse_eq_ofList (t : Text) : parse t = ofList (namesIn t) := rfl

theorem mem_parse {t : Text} : n ∈ parse t ↔ n ∈ namesIn t := by
  rw [parse_eq_ofList, mem_ofList]

theorem mem_namesIn {t : Text} : n ∈ namesIn t ↔ n ≠ [] ∧ ∃ l ∈ Text.lines t, Text.trim l = n := by
  simp [namesIn, and_comm]

/-- **Two texts with a line feed between them have the names of both.** -/
theorem namesIn_append (a b : Text) : namesIn (a ++ '\n' :: b) = namesIn a ++ namesIn b := by
  obtain ⟨seam, hseam, h⟩ := Text.lines_append a b
  -- the line at the seam is blank, so it holds no name
  have hblank : (seam.map Text.trim).filter (fun n => !n.isEmpty) = [] := by
    refine List.filter_eq_nil_iff.2 fun n hn => ?_
    obtain ⟨l, hl, rfl⟩ := List.mem_map.1 hn
    rw [hseam l hl]
    decide
  simp [namesIn, h, hblank]

theorem namesIn_unlines : ∀ ts : List Text, namesIn (Text.unlines ts) = ts.flatMap namesIn
  | [] => rfl
  | [t] => by simp [Text.unlines, Text.join]
  | t :: u :: rest => by
      have hjoin : Text.unlines (t :: u :: rest) = t ++ '\n' :: Text.unlines (u :: rest) := by
        simp [Text.unlines, Text.join]
      rw [hjoin, namesIn_append, namesIn_unlines (u :: rest), List.flatMap_cons (x := t)]

/-- **Texts written one to a line are read as all their names.** -/
theorem parse_unlines (ts : List Text) : parse (Text.unlines ts) = unionOf (ts.map parse) := by
  refine ext_mem fun n => ?_
  simp [mem_parse, mem_unionOf, namesIn_unlines]

/-- **The spelling of the common breaks does not matter.** -/
theorem parse_unifyBreaks (t : Text) : parse (Text.unifyBreaks t) = parse t := by
  rw [parse, Text.lines_unifyBreaks, parse]

/-! ## Clean names -/

/-- **Only clean names come out of a text.** -/
theorem isClean_of_mem_namesIn {t : Text} (h : n ∈ namesIn t) : Text.IsClean n := by
  obtain ⟨hne, l, hl, rfl⟩ := mem_namesIn.1 h
  exact ⟨hne, Text.isTrimmed_trim l, fun c hc =>
    Text.noBreak_of_mem_lines t l hl c ((Text.trim_sublist l).subset hc)⟩

/-- **A clean name is read as itself.** -/
theorem namesIn_of_isClean (h : Text.IsClean n) : namesIn n = [n] := by
  simp [namesIn, Text.lines_of_noBreak h.ne_nil h.noBreak, Text.trim_of_isTrimmed h.trimmed,
    h.ne_nil]

/-- **Names written one to a line are read back just if they are clean.** -/
theorem parse_unlines_eq_ofList_iff {ns : List Text} :
    parse (Text.unlines ns) = ofList ns ↔ ∀ n ∈ ns, Text.IsClean n := by
  rw [parse_eq_ofList, namesIn_unlines, ofList_eq_ofList_iff]
  constructor
  · intro h n hn
    obtain ⟨m, _, hm⟩ := List.mem_flatMap.1 ((h n).2 hn)
    exact isClean_of_mem_namesIn hm
  · intro clean n
    rw [List.mem_flatMap]
    constructor
    · rintro ⟨m, hm, hn⟩
      rw [namesIn_of_isClean (clean m hm), List.mem_singleton] at hn
      exact hn ▸ hm
    · intro hn
      refine ⟨n, hn, ?_⟩
      rw [namesIn_of_isClean (clean n hn), List.mem_singleton]

end ModuleSet

end ModuleRoster
