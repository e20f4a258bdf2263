import ModuleRoster.Proofs.Roster.Parse

/-!
# Proofs/Roster/Joined — lists that are joined, and lists with other breaks

A joined list has the names of its parts, wherever the breaks of the parts stand, and a list with
its breaks replaced has the same names as before (`ModuleSet.parse_distributes`).  To replace first
every carriage return with a line feed behind it and then every other one is what `unifyBreaks` does
in one go (`Text.replace_breaks`).
-/

namespace ModuleRoster

/-! ## Replacing a piece of a text -/

namespace Text

variable {old new t rest : Text} {c : Char}

/-- **A text with each occurrence of a piece replaced**, from left to right; the piece is not empty.
In what was put in its place nothing is replaced. -/
def replace (old new : Text) : Text → Text
  | [] => []
  | c :: rest =>
      if old.isPrefixOf (c :: rest) then new ++ replace old new (rest.drop (old.length - 1))
      else c :: replace old new rest
termination_by t => t.length
decreasing_by
  all_goals
    simp only [List.length_drop, List.length_cons]
    omega

theorem replace_nil : replace old new [] = [] := by
  rw [replace]

/-- **Where the piece stands**, the other one is put. -/
theorem replace_append (h : old ≠ []) (new rest : Text) :
    replace old new (old ++ rest) = new ++ replace old new rest := by
  match old, h with
  | c :: cs, _ =>
      have here : (c :: cs).isPrefixOf (c :: (cs ++ rest)) = true :=
        List.isPrefixOf_iff_prefix.2 (List.prefix_append (c :: cs) rest)
      rw [List.cons_append, replace, if_pos here, List.length_cons, Nat.add_sub_cancel,
        List.drop_left]

/-- **Where it does not begin**, the character stays. -/
theorem replace_cons (h : ¬ old <+: c :: rest) (new : Text) :
    replace old new (c :: rest) = c :: replace old new rest := by
  rw [replace, if_neg (mt List.isPrefixOf_iff_prefix.1 h)]

/-- **The common breaks are unified in two steps**, those of two characters first. -/
theorem replace_breaks (t : Text) :
    replace ['\r'] ['\n'] (replace ['\r', '\n'] ['\n'] t) = unifyBreaks t := by
  fun_induction unifyBreaks t with
  | case1 => rw [replace_nil, replace_nil]
  | case2 rest ih =>
      have hpair : replace ['\r', '\n'] ['\n'] ('\r' :: '\n' :: rest)
          = '\n' :: replace ['\r', '\n'] ['\n'] rest := replace_append (by simp) _ _
      rw [hpair, replace_cons (by simp), ih]
  | case3 rest noFeed ih =>
      have alone : ¬ ['\r', '\n'] <+: '\r' :: rest := by
        rintro ⟨rest', h⟩
        exact noFeed rest' (List.cons.inj h).2.symm
      have hreturn : ∀ t, replace ['\r'] ['\n'] ('\r' :: t) = '\n' :: replace ['\r'] ['\n'] t :=
        fun t => replace_append (by simp) _ _
      rw [replace_cons alone, hreturn, ih]
  | case4 c rest _ noReturn ih =>
      have hc : ∀ cs t : Text, ¬ '\r' :: cs <+: c :: t := by
        rintro cs t ⟨rest', h⟩
        exact noReturn (List.cons.inj h).1.symm
      rw [replace_cons (hc _ _), replace_cons (hc _ _), ih]

end Text

/-! ## Joined lists -/

namespace ModuleSet

theorem parse_append (a b : Text) : parse (a ++ '\n' :: b) = unionOf [parse a, parse b] := by
  refine ext_mem fun n => ?_
  simp [mem_parse, mem_unionOf, namesIn_append]

/-- **Reading distributes over joining.**  Of two texts with a line feed between them all names of
both are read, and of texts written one to a line, whatever they are and however many, all names of
each.  Line feeds in the place of the other common breaks make no difference. -/
theorem parse_distributes :
    (∀ a b, parse (a ++ '\n' :: b) = unionOf [parse a, parse b]) ∧
      (∀ names, parse (Text.unlines names) = unionOf (names.map parse)) ∧
      ∀ t, parse (Text.replace ['\r'] ['\n'] (Text.replace ['\r', '\n'] ['\n'] t)) = parse t := by
  refine ⟨parse_append, parse_unlines, fun t => ?_⟩
  rw [Text.replace_breaks, parse_unifyBreaks]

end ModuleSet

end ModuleRoster
