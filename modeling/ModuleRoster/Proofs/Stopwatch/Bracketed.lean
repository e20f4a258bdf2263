import ModuleRoster.Proofs.Stopwatch.Transparent

/-!
# Proofs/Stopwatch/Bracketed — the log of a tree of blocks, line by line

A block that is entered reads the clock twice and notes one line when it is left.  A `Lap` is such a
block with the numbers of its two readings, and `Block.laps` lists those of a tree without a look at
the clock.  The log of a run is read off them (`Block.run_eq_laps`), and they are well bracketed:

* `IsBracketed.block` — around the laps of its body a block takes the reading before and the one
  after;
* `IsBracketed.row` — the laps of a row of blocks come one block after the other.

By induction over the tree this holds of every tree (`Block.measured_wellBracketed`).
-/

namespace ModuleRoster

variable {ε : Type} [DecidableEq ε]

/-! ## Positions in a tree -/

/-- **Where a block stands in a tree**: its number among its siblings, behind the numbers of the
blocks around it, the outermost first. -/
abbrev Position := List Nat

namespace Position

/-- Is a block strictly inside an outer one? -/
def isInside (outer inner : Position) : Bool :=
  outer.isPrefixOf inner && decide (outer.length < inner.length)

/-- **The order in which blocks are left**: a block after all blocks inside it, and siblings one
after the other. -/
inductive LeftBefore : Position → Position → Prop
  | inner {i p} : LeftBefore (i :: p) []
  | sibling {i j p q} (earlier : i < j) : LeftBefore (i :: p) (j :: q)
  | within {i p q} (before : LeftBefore p q) : LeftBefore (i :: p) (i :: q)

/-- The position when there is one more sibling in front. -/
def later : Position → Position
  | [] => []
  | i :: p => (i + 1) :: p

variable {p q : Position}

theorem LeftBefore.ne (h : LeftBefore p q) : p ≠ q := by
  induction h with
  | inner => exact nofun
  | sibling earlier => exact fun h => absurd (List.cons.inj h).1 (Nat.ne_of_lt earlier)
  | within _ ih => exact fun h => ih (List.cons.inj h).2

theorem leftBefore_nil (h : p ≠ []) : LeftBefore p [] := by
  match p, h with
  | _ :: _, _ => exact .inner

theorem leftBefore_later (h : q ≠ []) : LeftBefore (0 :: p) q.later := by
  match q, h with
  | _ :: _, _ => exact .sibling (Nat.succ_pos _)

theorem LeftBefore.later (h : LeftBefore p q) : LeftBefore p.later q.later := by
  cases h with
  | inner => exact .inner
  | sibling earlier => exact .sibling (Nat.succ_lt_succ earlier)
  | within before => exact .within before

theorem isInside_cons (i : Nat) : isInside (i :: p) (i :: q) = isInside p q := by
  simp [isInside, List.isPrefixOf]

theorem isInside_later : isInside p.later q.later = isInside p q := by
  match p, q with
  | [], [] => rfl
  | [], _ :: _ => rfl
  | _ :: _, [] => rfl
  | i :: p, j :: q => simp [isInside, Position.later, List.isPrefixOf]

theorem isInside_nil (h : p ≠ []) : isInside [] p = true := by
  simpa [isInside, List.length_pos_iff] using h

theorem not_isInside_nil : isInside p [] = false := by
  simp [isInside]

/-- Two blocks of a row have nothing inside each other. -/
theorem not_isInside_later (h : q ≠ []) : isInside (0 :: p) q.later = false := by
  match q, h with
  | j :: q, _ => simp [isInside, Position.later, List.isPrefixOf]

theorem not_isInside_first (h : p ≠ []) : isInside p.later (0 :: q) = false := by
  match p, h with
  | i :: p, _ => simp [isInside, Position.later, List.isPrefixOf]

end Position

/-! ## The blocks that are entered -/

/-- The name of a block. -/
def Block.name : Block ε → Text
  | .mk name _ _ _ => name

/-- The blocks inside a block. -/
def Block.body : Block ε → List (Block ε)
  | .mk _ body _ _ => body

/-- **A block with this position and this name is entered** when a row of blocks is run: the first
block always is, blocks in the body of a block that is entered are entered as in any row, and a later
block of a row is skipped if a failure escapes from one before it. -/
inductive Entered : List (Block ε) → Position → Text → Prop
  | first {b bs} : Entered (b :: bs) [0] b.name
  | within {b bs p name} (inner : Entered b.body p name) : Entered (b :: bs) (0 :: p) name
  | later {b bs p name} (through : b.untimed = .ok ()) (entered : Entered bs p name) :
      Entered (b :: bs) p.later name

theorem Entered.ne_nil {blocks : List (Block ε)} {p : Position} {name : Text}
    (h : Entered blocks p name) : p ≠ [] := by
  induction h with
  | first => exact nofun
  | within => exact nofun
  | @later _ _ p _ _ _ ih =>
      match p, ih with
      | _ :: _, _ => exact nofun

/-! ## Laps -/

/-- **A block that was entered**: its position and its name, and the numbers of the clock readings at
its start and at its end. -/
structure Lap where
  position : Position
  name : Text
  start : Nat
  stop : Nat

namespace Lap

/-- What is noted of a lap, under a clock. -/
def entry (clock : Clock) (l : Lap) : LogEntry :=
  .took l.name ((clock.read l.stop).sub (clock.read l.start))

/-- **The line of a lap**: the name as it is, and the seconds between the two readings. -/
def line (clock : Clock) (l : Lap) : Text :=
  "DEBUG ".toList ++ (l.name ++ " took ".toList ++
    ((clock.read l.stop).sub (clock.read l.start)).toThousandths ++ ['s'])

theorem line_entry_eq (clock : Clock) (l : Lap) : (l.entry clock).line = l.line clock := rfl

/-- The lap with its position in the first block of a row. -/
def inFirst (l : Lap) : Lap := { l with position := 0 :: l.position }

/-- The lap with one more block in front of its row. -/
def inLater (l : Lap) : Lap := { l with position := l.position.later }

end Lap

namespace Block

mutual

/-- **The laps of a block** whose start takes the reading with number `i`, in the order in which
blocks are left.  Its own position is `[]`. -/
def laps : Block ε → Nat → List Lap
  | .mk name body _ _, i =>
      let inner := lapsAll body (i + 1)
      inner ++ [⟨[], name, i, i + 1 + 2 * inner.length⟩]

/-- The laps of a row of blocks. -/
def lapsAll : List (Block ε) → Nat → List Lap
  | [], _ => []
  | b :: bs, i =>
      let first := laps b i
      first.map Lap.inFirst ++
        match b.untimed with
        | .error _ => []
        | .ok () => (lapsAll bs (i + 2 * first.length)).map Lap.inLater

end

/-! ## The log of a run -/

mutual

/-- **A run notes its laps**, and takes two readings for each. -/
theorem run_eq_laps (clock : Clock) : ∀ (b : Block ε) (i : Nat),
    (run clock b i).log = (laps b i).map (Lap.entry clock) ∧
      (run clock b i).next = i + 2 * (laps b i).length
  | .mk name body raises catches, i => by
      obtain ⟨hlog, hnext⟩ := runAll_eq_laps clock body (i + 1)
      simp only [run, timed, laps, hlog, hnext, List.map_append, List.length_append,
        List.map_singleton, Lap.entry, List.length_singleton]
      exact ⟨trivial, by omega⟩

theorem runAll_eq_laps (clock : Clock) : ∀ (blocks : List (Block ε)) (i : Nat),
    (runAll clock blocks i).log = (lapsAll blocks i).map (Lap.entry clock) ∧
      (runAll clock blocks i).next = i + 2 * (lapsAll blocks i).length
  | [], i => by
      simp only [runAll, lapsAll, List.map_nil, List.length_nil]
      exact ⟨trivial, by omega⟩
  | b :: bs, i => by
      obtain ⟨hlog, hnext⟩ := run_eq_laps clock b i
      have hresult := run_result clock b i
      have hentry : Lap.entry clock ∘ Lap.inFirst = Lap.entry clock := rfl
      have hentry' : Lap.entry clock ∘ Lap.inLater = Lap.entry clock := rfl
      cases hend : b.untimed with
      | error e =>
          rw [hend] at hresult
          simp only [runAll, lapsAll, hresult, hend, hlog, hnext, List.append_nil, List.map_map,
            hentry, List.length_map]
          exact ⟨trivial, trivial⟩
      | ok done =>
          rw [hend] at hresult
          obtain ⟨hlog', hnext'⟩ := runAll_eq_laps clock bs (i + 2 * (laps b i).length)
          simp only [runAll, lapsAll, hresult, hend, hlog, hnext, hlog', hnext', List.map_append,
            List.map_map, hentry, hentry', List.length_append, List.length_map]
          exact ⟨trivial, by omega⟩

end

end Block

/-! ## Well-bracketed laps -/

/-- **Laps that are well bracketed**, from the reading with number `i` on.  They stand in the order
in which blocks are left; between the two readings of a lap lie those of the laps inside it and no
others; and each reading is the start or the end of one lap. -/
structure IsBracketed (laps : List Lap) (i : Nat) : Prop where
  ordered : laps.Pairwise fun l m => l.position.LeftBefore m.position ∧ l.stop < m.stop
  closed : ∀ l ∈ laps,
    l.stop = l.start + 2 * laps.countP (fun m => l.position.isInside m.position) + 1
  readings : (laps.flatMap fun l => [l.start, l.stop]).Perm (List.range' i (2 * laps.length))

namespace IsBracketed

variable {laps rest : List Lap} {l : Lap} {i : Nat}

theorem nil (i : Nat) : IsBracketed [] i where
  ordered := .nil
  closed := by simp
  readings := .refl _

/-- A block has one lap at most. -/
theorem nodup (h : IsBracketed laps i) : (laps.map Lap.position).Nodup :=
  List.pairwise_map.2 (h.ordered.imp fun ⟨hleft, _⟩ => hleft.ne)

theorem stop_mem (h : IsBracketed laps i) (hl : l ∈ laps) :
    i ≤ l.stop ∧ l.stop < i + 2 * laps.length := by
  have hmem : l.stop ∈ laps.flatMap fun l => [l.start, l.stop] :=
    List.mem_flatMap.2 ⟨l, hl, by simp⟩
  simpa using h.readings.mem_iff.1 hmem

/-- **Around the laps of its body** a block takes the reading before and the one after. -/
theorem block (h : IsBracketed laps (i + 1)) (inner : ∀ l ∈ laps, l.position ≠ []) (name : Text) :
    IsBracketed (laps ++ [⟨[], name, i, i + 1 + 2 * laps.length⟩]) i where
  ordered := by
    refine List.pairwise_append.2 ⟨h.ordered, List.pairwise_singleton _ _, ?_⟩
    intro l hl m hm
    obtain rfl := List.mem_singleton.1 hm
    exact ⟨Position.leftBefore_nil (inner l hl), (h.stop_mem hl).2⟩
  closed := by
    intro l hl
    rw [List.countP_append, List.countP_singleton]
    rcases List.mem_append.1 hl with hl | hl
    · simpa [Position.not_isInside_nil] using h.closed l hl
    · obtain rfl := List.mem_singleton.1 hl
      have hall : laps.countP (fun m => Position.isInside [] m.position) = laps.length :=
        List.countP_eq_length.2 fun m hm => Position.isInside_nil (inner m hm)
      simp only [hall, Position.not_isInside_nil, Bool.false_eq_true, if_false]
      omega
  readings := by
    have hrange : List.range' i (2 * (laps.length + 1))
        = i :: (List.range' (i + 1) (2 * laps.length) ++ [i + 1 + 2 * laps.length]) := by
      rw [Nat.mul_succ, List.range'_succ, List.range'_concat, Nat.one_mul]
    rw [List.flatMap_append, List.length_append, List.length_singleton, hrange]
    exact List.perm_middle.trans ((h.readings.append_right _).cons i)

/-- **The laps of a row** are those of its first block and then those of the later ones. -/
theorem row (h : IsBracketed laps i) (h' : IsBracketed rest (i + 2 * laps.length))
    (inRow : ∀ l ∈ rest, l.position ≠ []) :
    IsBracketed (laps.map Lap.inFirst ++ rest.map Lap.inLater) i where
  ordered := by
    refine List.pairwise_append.2 ⟨?_, ?_, ?_⟩
    · exact List.pairwise_map.2 (h.ordered.imp fun ⟨hleft, hstop⟩ => ⟨.within hleft, hstop⟩)
    · exact List.pairwise_map.2 (h'.ordered.imp fun ⟨hleft, hstop⟩ => ⟨hleft.later, hstop⟩)
    · intro l hl m hm
      obtain ⟨k, hk, rfl⟩ := List.mem_map.1 hl
      obtain ⟨n, hn, rfl⟩ := List.mem_map.1 hm
      exact ⟨Position.leftBefore_later (inRow n hn),
        Nat.lt_of_lt_of_le (h.stop_mem hk).2 (h'.stop_mem hn).1⟩
  closed := by
    intro l hl
    rw [List.countP_append, List.countP_map, List.countP_map]
    rcases List.mem_append.1 hl with hl | hl
    · obtain ⟨k, hk, rfl⟩ := List.mem_map.1 hl
      have hnone : rest.countP (fun m => Position.isInside (0 :: k.position) m.position.later) = 0 :=
        List.countP_eq_zero.2 fun m hm => by simp [Position.not_isInside_later (inRow m hm)]
      simpa [Function.comp_def, Lap.inFirst, Lap.inLater, Position.isInside_cons, hnone]
        using h.closed k hk
    · obtain ⟨k, hk, rfl⟩ := List.mem_map.1 hl
      have hnone : laps.countP (fun m => Position.isInside k.position.later (0 :: m.position)) = 0 :=
        List.countP_eq_zero.2 fun m _ => by simp [Position.not_isInside_first (inRow k hk)]
      simpa [Function.comp_def, Lap.inFirst, Lap.inLater, Position.isInside_later, hnone]
        using h'.closed k hk
  readings := by
    have hlength : 2 * (laps.map Lap.inFirst ++ rest.map Lap.inLater).length
        = 2 * laps.length + 2 * rest.length := by
      rw [List.length_append, List.length_map, List.length_map, Nat.mul_add]
    rw [hlength, ← List.range'_append_1, List.flatMap_append, List.flatMap_map, List.flatMap_map]
    exact h.readings.append h'.readings

end IsBracketed

/-! ## Every tree -/

namespace Block

mutual

/-- **The laps of a block are those of the blocks that are entered**: its own, and those inside. -/
theorem mem_laps {p : Position} {n : Text} : ∀ (b : Block ε) (i : Nat),
    (∃ l ∈ laps b i, l.position = p ∧ l.name = n) ↔
      (p = [] ∧ n = b.name) ∨ Entered b.body p n
  | .mk name body raises catches, i => by
      have hbody := mem_lapsAll (p := p) (n := n) body (i + 1)
      simp only [laps, List.mem_append, List.mem_singleton, Block.name, Block.body, ← hbody]
      constructor
      · rintro ⟨l, hl | rfl, rfl, rfl⟩
        · exact Or.inr ⟨l, hl, rfl, rfl⟩
        · exact Or.inl ⟨rfl, rfl⟩
      · rintro (⟨rfl, rfl⟩ | ⟨l, hl, rfl, rfl⟩)
        · exact ⟨_, Or.inr rfl, rfl, rfl⟩
        · exact ⟨l, Or.inl hl, rfl, rfl⟩

theorem mem_lapsAll {p : Position} {n : Text} : ∀ (blocks : List (Block ε)) (i : Nat),
    (∃ l ∈ lapsAll blocks i, l.position = p ∧ l.name = n) ↔ Entered blocks p n
  | [], i => by
      simp only [lapsAll, List.not_mem_nil, false_and, exists_false, false_iff]
      exact nofun
  | b :: bs, i => by
      simp only [lapsAll, List.mem_append, List.mem_map]
      constructor
      · rintro ⟨_, ⟨l, hl, rfl⟩ | hl, rfl, rfl⟩
        · rcases (mem_laps b i).1 ⟨l, hl, rfl, rfl⟩ with ⟨hp, hn⟩ | inner
          · simp only [Lap.inFirst, hp, hn]
            exact .first
          · exact .within inner
        · cases hend : b.untimed with
          | error e => simp [hend] at hl
          | ok done =>
              simp only [hend, List.mem_map] at hl
              obtain ⟨l, hl, rfl⟩ := hl
              exact .later hend ((mem_lapsAll bs _).1 ⟨l, hl, rfl, rfl⟩)
      · intro h
        cases h with
        | first =>
            obtain ⟨l, hl, hp, hn⟩ := (mem_laps b i).2 (Or.inl ⟨rfl, rfl⟩)
            exact ⟨_, Or.inl ⟨l, hl, rfl⟩, congrArg (0 :: ·) hp, hn⟩
        | within inner =>
            obtain ⟨l, hl, hp, hn⟩ := (mem_laps b i).2 (Or.inr inner)
            exact ⟨_, Or.inl ⟨l, hl, rfl⟩, congrArg (0 :: ·) hp, hn⟩
        | later through entered =>
            obtain ⟨l, hl, hp, hn⟩ :=
              (mem_lapsAll bs (i + 2 * (laps b i).length)).2 entered
            refine ⟨l.inLater, Or.inr ?_, congrArg Position.later hp, hn⟩
            simp only [through]
            exact List.mem_map.2 ⟨l, hl, rfl⟩

end

/-- A lap of a row has a number in the row. -/
theorem position_ne_nil {blocks : List (Block ε)} {i : Nat} {l : Lap}
    (h : l ∈ lapsAll blocks i) : l.position ≠ [] :=
  ((mem_lapsAll blocks i).1 ⟨l, h, rfl, rfl⟩).ne_nil

mutual

/-- **The laps of every tree are well bracketed.** -/
theorem isBracketed_laps : ∀ (b : Block ε) (i : Nat), IsBracketed (laps b i) i
  | .mk name body raises catches, i => by
      rw [laps]
      exact (isBracketed_lapsAll body (i + 1)).block (fun _ => position_ne_nil) name

theorem isBracketed_lapsAll : ∀ (blocks : List (Block ε)) (i : Nat),
    IsBracketed (lapsAll blocks i) i
  | [], i => by
      rw [lapsAll]
      exact .nil i
  | b :: bs, i => by
      have first := isBracketed_laps b i
      rw [lapsAll]
      cases hend : b.untimed with
      | error e => exact first.row (.nil _) (by simp)
      | ok done => exact first.row (isBracketed_lapsAll bs _) fun _ => position_ne_nil

end

/-- **What timed blocks show**: the lines of the log at a level, and how many readings of the clock
they took. -/
def measured (clock : Clock) (level : LogLevel) (blocks : List (Block ε)) : List Text × Nat :=
  let t := runAll clock blocks 0
  (LogEntry.shown level t.log, t.next)

/-- **The log of a tree of blocks is complete and well bracketed.**  There are laps, the same under
every clock and at every level: one for each block that is entered and none for any other, in the
order in which blocks are left.  A lap with `d` laps inside it that starts with reading `i` ends with
reading `i + 2 * d + 1`, and the laps share out all readings.  At the lowest level the log has the
lines of the laps, at any other none, and the same number of readings is taken; a used-up clock
repeats its last reading. -/
theorem measured_wellBracketed (blocks : List (Block ε)) :
    ∃ laps : List Lap, IsBracketed laps 0 ∧ (laps.map Lap.position).Nodup ∧
      (∀ p name, (∃ l ∈ laps, l.position = p ∧ l.name = name) ↔ Entered blocks p name) ∧
      ∀ clock : Clock,
        (∀ level, measured clock level blocks
          = (if level = .debug then laps.map (Lap.line clock) else [], 2 * laps.length)) ∧
        ∀ k, clock.read (clock.readings.length + k) = clock.readings.getLast?.getD .zero := by
  have bracketed := isBracketed_lapsAll blocks 0
  refine ⟨lapsAll blocks 0, bracketed, bracketed.nodup, fun p name => mem_lapsAll blocks 0,
    fun clock => ⟨fun level => ?_, fun k => ?_⟩⟩
  · obtain ⟨hlog, hnext⟩ := runAll_eq_laps clock blocks 0
    have hlines : LogEntry.line ∘ Lap.entry clock = Lap.line clock :=
      funext (Lap.line_entry_eq clock)
    simp only [measured, LogEntry.shown, hlog, hnext, List.map_map, hlines, Nat.zero_add]
  · simp [Clock.read]

end Block

end ModuleRoster
